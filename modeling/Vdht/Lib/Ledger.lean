import Mathlib.Data.List.Induction
import Mathlib.Data.Multiset.AddSub
import Mathlib.Data.Multiset.Count

/-!
# Ledgers

A log in which some events issue an item and others use one up. The log is a ledger of a stock
when every use took an item that was in stock at that point and the stock is what is left. So
in every initial part of the log no item is used more often than it was issued.
-/

namespace Vdht.Lib

variable {E α : Type*} [DecidableEq α] (issued used : E → Option α)

/-- The logs in which only what has been issued is used, and each issue once, with what is left in
stock after them. -/
inductive Ledger : List E → Multiset α → Prop
  | nil : Ledger [] 0
  | issue {log : List E} {stock : Multiset α} {e : E} {a : α} (h : Ledger log stock)
      (hi : issued e = some a) (hu : used e = none) : Ledger (log ++ [e]) (a ::ₘ stock)
  | use {log : List E} {stock : Multiset α} {e : E} {a : α} (h : Ledger log stock)
      (hi : issued e = none) (hu : used e = some a) (ha : a ∈ stock) :
      Ledger (log ++ [e]) (stock.erase a)
  | other {log : List E} {stock : Multiset α} {e : E} (h : Ledger log stock)
      (hi : issued e = none) (hu : used e = none) : Ledger (log ++ [e]) stock

namespace Ledger

variable {issued used} {log rest : List E} {stock : Multiset α}

theorem balance (h : Ledger issued used log stock) (a : α) :
    (log.filterMap issued).count a = (log.filterMap used).count a + stock.count a := by
  induction h with
  | nil => simp
  | @issue log stock e b _ hi hu ih =>
    by_cases hab : a = b
    · subst hab
      simp [hi, hu, List.count_append, ih]
      omega
    · simp [hi, hu, List.count_append, ih, Multiset.count_cons_of_ne hab, Ne.symm hab]
  | @use log stock e b _ hi hu hb ih =>
    by_cases hab : a = b
    · subst hab
      have hpos := Multiset.count_pos.mpr hb
      simp [hi, hu, List.count_append, ih]
      omega
    · simp [hi, hu, List.count_append, ih, Multiset.count_erase_of_ne hab, Ne.symm hab]
  | other _ hi hu ih => simp [hi, hu, ih]

theorem used_le (h : Ledger issued used log stock) (a : α) :
    (log.filterMap used).count a ≤ (log.filterMap issued).count a := by
  have hb := h.balance a
  omega

/-- Every initial part of a ledger is a ledger. -/
theorem initial (h : Ledger issued used (log ++ rest) stock) :
    ∃ old, Ledger issued used log old := by
  induction rest using List.reverseRecOn generalizing stock with
  | nil => exact ⟨stock, by simpa using h⟩
  | append_singleton rest e ih =>
    rw [← List.append_assoc] at h
    generalize hl : log ++ rest ++ [e] = l at h
    cases h with
    | nil => simp at hl
    | issue h _ _ => exact ih ((List.append_inj_left' hl rfl).symm ▸ h)
    | use h _ _ _ => exact ih ((List.append_inj_left' hl rfl).symm ▸ h)
    | other h _ _ => exact ih ((List.append_inj_left' hl rfl).symm ▸ h)

/-- What is used up was issued before, more often than it was used before. -/
theorem used_lt {e : E} {a : α} (h : Ledger issued used (log ++ e :: rest) stock)
    (hi : issued e = none) (he : used e = some a) :
    (log.filterMap used).count a < (log.filterMap issued).count a := by
  rw [← List.singleton_append, ← List.append_assoc] at h
  obtain ⟨old, hold⟩ := h.initial
  have hle := hold.used_le a
  simp only [List.filterMap_append, List.filterMap_cons, List.filterMap_nil, he, hi,
    List.count_append, List.count_singleton_self, List.count_nil] at hle
  omega

theorem append_issued (h : Ledger issued used log stock) (hrest : ∀ e ∈ rest, used e = none) :
    Ledger issued used (log ++ rest) (stock + (rest.filterMap issued : List α)) := by
  induction rest generalizing log stock with
  | nil => simpa using h
  | cons e rest ih =>
    have hu := hrest e List.mem_cons_self
    have hrest' : ∀ e ∈ rest, used e = none := fun d hd => hrest d (List.mem_cons_of_mem _ hd)
    rw [← List.singleton_append, ← List.append_assoc]
    cases hi : issued e with
    | none =>
      have hnext := ih (h.other hi hu) hrest'
      simpa [hi] using hnext
    | some a =>
      have hnext := ih (h.issue hi hu) hrest'
      rw [List.singleton_append, List.filterMap_cons_some hi, ← Multiset.cons_coe,
        Multiset.add_cons]
      rwa [Multiset.cons_add] at hnext

/-- Use up items that are all in stock. -/
theorem append_used {kept : Multiset α} (h : Ledger issued used log stock)
    (hrest : ∀ e ∈ rest, issued e = none)
    (hstock : stock = kept + (rest.filterMap used : List α)) :
    Ledger issued used (log ++ rest) kept := by
  induction rest generalizing log stock with
  | nil =>
    have hkept : stock = kept := by simpa using hstock
    rw [List.append_nil]
    exact hkept ▸ h
  | cons e rest ih =>
    have hi := hrest e List.mem_cons_self
    have hrest' : ∀ e ∈ rest, issued e = none := fun d hd => hrest d (List.mem_cons_of_mem _ hd)
    rw [← List.singleton_append, ← List.append_assoc]
    cases hu : used e with
    | none => exact ih (h.other hi hu) hrest' (by simpa [hu] using hstock)
    | some a =>
      have hcons : stock = a ::ₘ (kept + (rest.filterMap used : List α)) := by
        rw [hstock, List.filterMap_cons_some hu, ← Multiset.cons_coe, Multiset.add_cons]
      have hmem : a ∈ stock := by rw [hcons]; exact Multiset.mem_cons_self a _
      exact ih (h.use hi hu hmem) hrest' (by rw [hcons, Multiset.erase_cons_head])

end Ledger

end Vdht.Lib
