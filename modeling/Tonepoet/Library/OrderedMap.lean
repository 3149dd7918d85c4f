import Mathlib.Order.Defs.LinearOrder
import Mathlib.Order.Lattice
import Mathlib.Data.List.Basic

/-!
# Maps ordered by key

A finite map is the list of its entries in the order of their keys. Two maps with the same entries are
equal, and an entry whose key is above all others goes to the end.
-/

namespace OrderedMap

variable {κ ν : Type*} [LinearOrder κ]

/-- The entries, at most one for a key, in the order of the keys. -/
structure Map (κ ν : Type*) [LinearOrder κ] where
  entries : List (κ × ν)
  sorted : entries.Pairwise fun a b => a.1 < b.1

@[ext] theorem Map.ext {m m' : Map κ ν} (h : m.entries = m'.entries) : m = m' := by
  cases m
  cases m'
  cases h
  rfl

/-- Change the value at a key, or put one there. -/
def upsertList (k : κ) (f : Option ν → ν) : List (κ × ν) → List (κ × ν)
  | [] => [(k, f none)]
  | (k', v) :: rest =>
    if k < k' then (k, f none) :: (k', v) :: rest
    else if k = k' then (k', f (some v)) :: rest
    else (k', v) :: upsertList k f rest

theorem key_of_mem_upsertList {k : κ} {f : Option ν → ν} {e : κ × ν} :
    ∀ {entries : List (κ × ν)}, e ∈ upsertList k f entries → e.1 = k ∨ ∃ e' ∈ entries, e'.1 = e.1
  | [], h => .inl (by rw [List.mem_singleton.1 h])
  | (k', v) :: rest, h => by
    rw [upsertList] at h
    split_ifs at h with hlt heq
    · rcases List.mem_cons.1 h with rfl | h
      · exact .inl rfl
      · exact .inr ⟨e, h, rfl⟩
    · rcases List.mem_cons.1 h with rfl | h
      · exact .inl heq.symm
      · exact .inr ⟨e, List.mem_cons_of_mem _ h, rfl⟩
    · rcases List.mem_cons.1 h with rfl | h
      · exact .inr ⟨(k', v), List.mem_cons_self, rfl⟩
      · rcases key_of_mem_upsertList h with hk | ⟨e', he', hkey⟩
        · exact .inl hk
        · exact .inr ⟨e', List.mem_cons_of_mem _ he', hkey⟩

theorem sorted_upsertList (k : κ) (f : Option ν → ν) :
    ∀ {entries : List (κ × ν)}, (entries.Pairwise fun a b => a.1 < b.1) → (upsertList k f entries).Pairwise fun a b => a.1 < b.1
  | [], _ => List.pairwise_singleton _ _
  | (k', v) :: rest, h => by
    obtain ⟨hhead, htail⟩ := List.pairwise_cons.1 h
    rw [upsertList]
    split_ifs with hlt heq
    · refine List.pairwise_cons.2 ⟨fun e he => ?_, h⟩
      rcases List.mem_cons.1 he with rfl | he
      · exact hlt
      · exact hlt.trans (hhead e he)
    · exact List.pairwise_cons.2 ⟨hhead, htail⟩
    · refine List.pairwise_cons.2 ⟨fun e he => ?_, sorted_upsertList k f htail⟩
      rcases key_of_mem_upsertList he with hk | ⟨e', he', hkey⟩
      · exact hk ▸ lt_of_le_of_ne (not_lt.1 hlt) (Ne.symm heq)
      · exact hkey ▸ hhead e' he'

namespace Map

def empty : Map κ ν := ⟨[], List.Pairwise.nil⟩

def upsert (m : Map κ ν) (k : κ) (f : Option ν → ν) : Map κ ν := ⟨upsertList k f m.entries, sorted_upsertList k f m.sorted⟩

def keys (m : Map κ ν) : List κ := m.entries.map Prod.fst

@[simp] theorem entries_empty : (empty : Map κ ν).entries = [] := rfl

end Map

theorem upsertList_above {k : κ} (f : Option ν → ν) : ∀ {entries : List (κ × ν)}, (∀ e ∈ entries, e.1 < k) →
    upsertList k f entries = entries ++ [(k, f none)]
  | [], _ => rfl
  | (k', v) :: rest, h => by
    have hk := h (k', v) List.mem_cons_self
    rw [upsertList, if_neg (not_lt.2 hk.le), if_neg hk.ne', upsertList_above f fun e he => h e (List.mem_cons_of_mem _ he)]
    rfl

theorem upsertList_last {k : κ} {v : ν} (f : Option ν → ν) : ∀ {entries : List (κ × ν)}, (∀ e ∈ entries, e.1 < k) →
    upsertList k f (entries ++ [(k, v)]) = entries ++ [(k, f (some v))]
  | [], _ => by rw [List.nil_append, upsertList, if_neg (lt_irrefl k), if_pos rfl, List.nil_append]
  | (k', v') :: rest, h => by
    have hk := h (k', v') List.mem_cons_self
    rw [List.cons_append, upsertList, if_neg (not_lt.2 hk.le), if_neg hk.ne',
      upsertList_last f fun e he => h e (List.mem_cons_of_mem _ he)]
    rfl

/-- A new greatest key. -/
theorem Map.entries_upsert_above {m : Map κ ν} {k : κ} (f : Option ν → ν) (h : ∀ e ∈ m.entries, e.1 < k) :
    (m.upsert k f).entries = m.entries ++ [(k, f none)] := upsertList_above f h

/-- The greatest key again. -/
theorem Map.entries_upsert_last {m : Map κ ν} {init : List (κ × ν)} {k : κ} {v : ν} (f : Option ν → ν)
    (h : m.entries = init ++ [(k, v)]) : (m.upsert k f).entries = init ++ [(k, f (some v))] := by
  have hsorted := m.sorted
  rw [h, List.pairwise_append] at hsorted
  change upsertList k f m.entries = _
  rw [h]
  exact upsertList_last f fun e he => hsorted.2.2 e he (k, v) (List.mem_singleton_self _)

end OrderedMap
