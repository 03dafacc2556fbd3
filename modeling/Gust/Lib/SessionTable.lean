import Gust.Lib.Machine
import Mathlib.Data.List.Nodup
import Mathlib.Data.Set.Card
import Mathlib.Logic.Function.Basic

/-!
# Tables of sessions that remove themselves

One inserter and many sessions share a map. The inserter looks a key up, and on a miss
makes a new session and inserts it; the lookup and the insertion are separate steps, and
sessions come to their end in between. A session removes itself by its key, not by its
identity, in a last step of its own.

That is enough for the map and the unfinished sessions to be in bijection: only the
inserter inserts, and only under a key that it has found absent, so nobody can have made
the key present since. `Table.Inv` is that invariant. A program refines the table when
each of its steps is a `Table.step` or leaves the table as it was.

## Main definitions

* `Table` — the map, all sessions ever inserted, and what the inserter is up to.
* `Table.step` — the atomic steps.
* `Table.Inv`, `Table.Inv.step` — the invariant, and that every step keeps it.
* `Table.Inv.ncard_map` — the map counts the unfinished sessions.
-/

namespace Gust.Lib

/-- A session that has been inserted. -/
structure Entry (κ : Type) where
  key : κ
  id : ℕ
  /-- Whether it has still to remove itself. -/
  live : Bool
  deriving DecidableEq, Repr

/-- What the inserter is about to do. -/
inductive Pending (κ : Type)
  | idle
  /-- The key was absent when it was looked up. -/
  | missed (key : κ)
  /-- A session has been made for the key. -/
  | made (key : κ) (id : ℕ)
  deriving DecidableEq, Repr

structure Table (κ : Type) where
  /-- The identity of the next session. -/
  fresh : ℕ
  map : κ → Option ℕ
  sessions : List (Entry κ)
  pending : Pending κ

namespace Table

inductive Op (κ : Type)
  | miss (key : κ)
  | giveUp
  | make
  | insert
  | remove (i : ℕ)
  deriving DecidableEq, Repr

section

variable {κ : Type} [DecidableEq κ]

def step (t : Table κ) : Op κ → Option (Table κ)
  | .miss key => if t.map key = none then some { t with pending := .missed key } else none
  | .giveUp => some { t with pending := .idle }
  | .make =>
      match t.pending with
      | .missed key => some { t with fresh := t.fresh + 1, pending := .made key t.fresh }
      | _ => none
  | .insert =>
      match t.pending with
      | .made key id =>
          some ⟨t.fresh, Function.update t.map key (some id), t.sessions ++ [⟨key, id, true⟩], .idle⟩
      | _ => none
  | .remove i =>
      match t.sessions[i]? with
      | some ⟨key, id, true⟩ =>
          some ⟨t.fresh, Function.update t.map key none, t.sessions.set i ⟨key, id, false⟩, t.pending⟩
      | _ => none

end

variable {κ : Type}

def empty : Table κ := ⟨0, fun _ => none, [], .idle⟩

/-- What the inserter knows about its key and its new session. -/
def PendingOk (t : Table κ) : Prop :=
  match t.pending with
  | .idle => True
  | .missed key => t.map key = none
  | .made key id => t.map key = none ∧ id < t.fresh ∧ ∀ e ∈ t.sessions, e.id ≠ id

/-- **The map holds exactly the unfinished sessions**, each under its own key. -/
structure Inv (t : Table κ) : Prop where
  mem : ∀ {i : ℕ} {e : Entry κ}, t.sessions[i]? = some e → e.live = true →
    t.map e.key = some e.id
  owner : ∀ {key : κ} {id : ℕ}, t.map key = some id →
    ∃ i : ℕ, t.sessions[i]? = some ⟨key, id, true⟩
  /-- No identity is used twice. -/
  nodup : (t.sessions.map Entry.id).Nodup
  lt_fresh : ∀ e ∈ t.sessions, e.id < t.fresh
  pending : t.PendingOk

theorem inv_empty : (empty : Table κ).Inv := by
  refine ⟨?_, ?_, ?_, ?_, trivial⟩ <;> simp [empty]

variable {t t' : Table κ}

/-- Sessions with one identity are the same session. -/
theorem Inv.index_eq (h : t.Inv) {i j : ℕ} {e e' : Entry κ} (he : t.sessions[i]? = some e)
    (he' : t.sessions[j]? = some e') (hid : e.id = e'.id) : i = j := by
  have hget : (t.sessions.map Entry.id)[i]? = (t.sessions.map Entry.id)[j]? := by
    rw [List.getElem?_map, List.getElem?_map, he, he', Option.map_some, Option.map_some, hid]
  have hi : i < (t.sessions.map Entry.id).length := by
    rw [List.length_map]
    exact (List.getElem?_eq_some_iff.mp he).1
  exact (List.getElem?_inj hi h.nodup).mp hget

/-- Unfinished sessions with one key are the same session. -/
theorem Inv.index_eq_of_key (h : t.Inv) {i j : ℕ} {e e' : Entry κ} (he : t.sessions[i]? = some e)
    (he' : t.sessions[j]? = some e') (hlive : e.live = true) (hlive' : e'.live = true)
    (hkey : e.key = e'.key) : i = j := by
  have hid : some e.id = some e'.id := by rw [← h.mem he hlive, ← h.mem he' hlive', hkey]
  exact h.index_eq he he' (Option.some.inj hid)

theorem Inv.make (h : t.Inv) {key : κ} (hpending : t.pending = .missed key) :
    Inv ⟨t.fresh + 1, t.map, t.sessions, .made key t.fresh⟩ := by
  have hnone : t.map key = none := by
    have hok := h.pending
    rwa [PendingOk, hpending] at hok
  refine ⟨h.mem, h.owner, h.nodup, fun e he => Nat.lt_succ_of_lt (h.lt_fresh e he), ?_⟩
  exact ⟨hnone, Nat.lt_succ_self _, fun e he => Nat.ne_of_lt (h.lt_fresh e he)⟩

/-- The map has as many entries as there are unfinished sessions. -/
theorem Inv.ncard_map (h : t.Inv) :
    {key | (t.map key).isSome}.ncard = t.sessions.countP Entry.live := by
  classical
  have hset : {key | (t.map key).isSome} =
      (((t.sessions.filter Entry.live).map Entry.key).toFinset : Set κ) := by
    ext key
    simp only [Set.mem_ofPred_eq, List.coe_toFinset, List.mem_map, List.mem_filter]
    constructor
    · intro hkey
      obtain ⟨id, hid⟩ := Option.isSome_iff_exists.mp hkey
      obtain ⟨i, hi⟩ := h.owner hid
      exact ⟨⟨key, id, true⟩, ⟨List.mem_of_getElem? hi, rfl⟩, rfl⟩
    · rintro ⟨e, ⟨hmem, hlive⟩, rfl⟩
      obtain ⟨i, hi⟩ := List.mem_iff_getElem?.mp hmem
      rw [h.mem hi hlive]
      rfl
  have hnodup : ((t.sessions.filter Entry.live).map Entry.key).Nodup := by
    refine (h.nodup.of_map.filter _).map_on ?_
    intro e he e' he' hkey
    obtain ⟨hmem, hlive⟩ := List.mem_filter.mp he
    obtain ⟨hmem', hlive'⟩ := List.mem_filter.mp he'
    obtain ⟨i, hi⟩ := List.mem_iff_getElem?.mp hmem
    obtain ⟨j, hj⟩ := List.mem_iff_getElem?.mp hmem'
    obtain rfl := h.index_eq_of_key hi hj hlive hlive' hkey
    exact Option.some.inj (hi.symm.trans hj)
  rw [hset, Set.ncard_coe_finset, List.toFinset_card_of_nodup hnodup, List.length_map,
    List.countP_eq_length_filter]

variable [DecidableEq κ]

theorem Inv.insert (h : t.Inv) {key : κ} {id : ℕ} (hpending : t.pending = .made key id) :
    Inv ⟨t.fresh, Function.update t.map key (some id), t.sessions ++ [⟨key, id, true⟩], .idle⟩ := by
  obtain ⟨hnone, hlt, hnew⟩ : t.map key = none ∧ id < t.fresh ∧ ∀ e ∈ t.sessions, e.id ≠ id := by
    have hok := h.pending
    rwa [PendingOk, hpending] at hok
  have hold : ∀ {k j}, t.map k = some j → Function.update t.map key (some id) k = some j := by
    intro k j hmap
    rw [Function.update_of_ne, hmap]
    rintro rfl
    rw [hnone] at hmap
    cases hmap
  refine ⟨?_, ?_, ?_, ?_, trivial⟩
  · intro i e he hlive
    rcases List.mem_append.mp (List.mem_of_getElem? he) with hmem | hmem
    · obtain ⟨j, hj⟩ := List.mem_iff_getElem?.mp hmem
      exact hold (h.mem hj hlive)
    · obtain rfl := List.mem_singleton.mp hmem
      exact Function.update_self ..
  · intro k j hmap
    dsimp only at hmap ⊢
    by_cases hk : k = key
    · subst hk
      rw [Function.update_self, Option.some.injEq] at hmap
      subst hmap
      exact ⟨t.sessions.length, by simp⟩
    · rw [Function.update_of_ne hk] at hmap
      obtain ⟨i, hi⟩ := h.owner hmap
      exact ⟨i, List.getElem?_append_left (List.getElem?_eq_some_iff.mp hi).1 ▸ hi⟩
  · rw [List.map_append, List.nodup_append]
    refine ⟨h.nodup, List.nodup_singleton _, ?_⟩
    intro i hi j hj
    obtain ⟨e, he, rfl⟩ := List.mem_map.mp hi
    obtain rfl := List.mem_singleton.mp hj
    exact hnew e he
  · intro e he
    rcases List.mem_append.mp he with he | he
    · exact h.lt_fresh e he
    · obtain rfl := List.mem_singleton.mp he
      exact hlt

theorem Inv.remove (h : t.Inv) {i : ℕ} {key : κ} {id : ℕ}
    (hi : t.sessions[i]? = some ⟨key, id, true⟩) :
    Inv ⟨t.fresh, Function.update t.map key none, t.sessions.set i ⟨key, id, false⟩,
      t.pending⟩ := by
  have hids : (t.sessions.set i ⟨key, id, false⟩).map Entry.id = t.sessions.map Entry.id :=
    map_set_of_eq hi rfl
  have hmem : ∀ e ∈ t.sessions.set i ⟨key, id, false⟩, ∃ e' ∈ t.sessions, e'.id = e.id := by
    intro e he
    have hid : e.id ∈ t.sessions.map Entry.id := hids ▸ List.mem_map_of_mem he
    obtain ⟨e', he', hid⟩ := List.mem_map.mp hid
    exact ⟨e', he', hid⟩
  refine ⟨?_, ?_, hids ▸ h.nodup, ?_, ?_⟩
  · intro j e he hlive
    obtain ⟨-, rfl⟩ | ⟨hij, he⟩ := getElem?_set_cases he
    · cases hlive
    · have hkey : e.key ≠ key := fun hkey => hij (h.index_eq_of_key he hi hlive rfl hkey)
      exact (Function.update_of_ne hkey ..).trans (h.mem he hlive)
  · intro k j hmap
    dsimp only at hmap ⊢
    by_cases hk : k = key
    · subst hk
      rw [Function.update_self] at hmap
      cases hmap
    · rw [Function.update_of_ne hk] at hmap
      obtain ⟨m, hm⟩ := h.owner hmap
      refine ⟨m, ?_⟩
      rw [List.getElem?_set_ne, hm]
      rintro rfl
      rw [hi] at hm
      cases hm
      exact hk rfl
  · intro e he
    obtain ⟨e', he', hid⟩ := hmem e he
    exact hid ▸ h.lt_fresh e' he'
  · have hok := h.pending
    have hstill : ∀ {k}, t.map k = none → Function.update t.map key none k = none := by
      intro k hk
      by_cases hkey : k = key
      · rw [hkey, Function.update_self]
      · rw [Function.update_of_ne hkey, hk]
    simp only [PendingOk] at hok ⊢
    cases hpending : t.pending with
    | idle => trivial
    | missed k =>
        rw [hpending] at hok
        exact hstill hok
    | made k j =>
        rw [hpending] at hok
        refine ⟨hstill hok.1, hok.2.1, fun e he => ?_⟩
        obtain ⟨e', he', hid⟩ := hmem e he
        exact hid ▸ hok.2.2 e' he'

theorem Inv.step (h : t.Inv) {op : Op κ} (ht : t.step op = some t') : t'.Inv := by
  cases op with
  | miss key =>
      simp only [Table.step] at ht
      split at ht
      · rename_i hnone
        cases ht
        exact ⟨h.mem, h.owner, h.nodup, h.lt_fresh, hnone⟩
      · cases ht
  | giveUp =>
      cases ht
      exact ⟨h.mem, h.owner, h.nodup, h.lt_fresh, trivial⟩
  | make =>
      simp only [Table.step] at ht
      split at ht
      · rename_i key hpending
        cases ht
        exact h.make hpending
      · cases ht
  | insert =>
      simp only [Table.step] at ht
      split at ht
      · rename_i key id hpending
        cases ht
        exact h.insert hpending
      · cases ht
  | remove i =>
      simp only [Table.step] at ht
      split at ht
      · rename_i key id hi
        cases ht
        exact h.remove hi
      · cases ht

end Table
end Gust.Lib
