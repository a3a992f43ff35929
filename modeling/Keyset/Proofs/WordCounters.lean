import Keyset.Store.Outage
import Keyset.Store.Table
import Keyset.Proofs.Windows
import Mathlib

/-!
# Counters of 64 bits

Sizes, positions and offsets are words. A sum that no word can hold becomes the largest word. Any
other operation that has no result stops the program, which is none here: a difference below zero,
bounds that are out of order, positions outside a list. A store works on words if none of this
happens to it as long as it is no longer than a list can be.
-/
namespace Keyset

abbrev Word := UInt64

namespace Word

variable {α : Type}

def top : Word := 0xffffffffffffffff

def addCapped (m n : Word) : Word := if m + n < m then top else m + n

def sub? (m n : Word) : Option Word := if n ≤ m then some (m - n) else none

def succ? (n : Word) : Option Word := if n < top then some (n + 1) else none

/-- A number moved between two bounds that are in order. -/
def clamp? (n low high : Word) : Option Word :=
  if low ≤ high then some (max low (min n high)) else none

def length? (xs : List α) : Option Word :=
  if xs.length < UInt64.size then some (.ofNat xs.length) else none

def range? (xs : List α) (start stop : Word) : Option (List α) :=
  if start ≤ stop ∧ stop.toNat ≤ xs.length then some ((xs.take stop.toNat).drop start.toNat)
  else none

def countWhile? (test : α → Bool) : Word → List α → Option Word
  | n, [] => some n
  | n, x :: xs => if test x then (succ? n).bind fun m => countWhile? test m xs else some n

theorem toNat_addCapped (m n : Word) : (addCapped m n).toNat = wordCeiling.add m.toNat n.toNat := by
  have hm := m.toNat_lt
  have hn := n.toNat_lt
  have hadd := UInt64.toNat_add m n
  rw [wordCeiling, Ceiling.add, addCapped]
  split
  · next hlt =>
    have htop : top.toNat = 0xffffffffffffffff := rfl
    rw [UInt64.lt_iff_toNat_lt] at hlt
    omega
  · next hge =>
    rw [UInt64.lt_iff_toNat_lt] at hge
    omega

theorem exists_sub?_eq {m n : Word} (h : n.toNat ≤ m.toNat) :
    ∃ rest, sub? m n = some rest ∧ rest.toNat = m.toNat - n.toNat := by
  have hle : n ≤ m := UInt64.le_iff_toNat_le.2 h
  exact ⟨m - n, if_pos hle, UInt64.toNat_sub_of_le m n hle⟩

theorem sub?_eq_none {m n : Word} (h : m.toNat < n.toNat) : sub? m n = none :=
  if_neg fun hle => Nat.not_le.2 h (UInt64.le_iff_toNat_le.1 hle)

theorem exists_succ?_eq {n : Word} (h : n.toNat < maxLength) :
    ∃ m, succ? n = some m ∧ m.toNat = n.toNat + 1 := by
  have hlt : n < top := UInt64.lt_iff_toNat_lt.2 (Nat.lt_trans h (by decide))
  refine ⟨n + 1, if_pos hlt, ?_⟩
  rw [maxLength] at h
  rw [UInt64.toNat_add, UInt64.toNat_one]
  omega

theorem exists_clamp?_eq (n : Word) {low high : Word} (h : low.toNat ≤ high.toNat) :
    ∃ m, clamp? n low high = some m ∧ m.toNat = max low.toNat (min n.toNat high.toNat) :=
  ⟨_, if_pos (UInt64.le_iff_toNat_le.2 h), by rw [UInt64.toNat_max, UInt64.toNat_min]⟩

theorem exists_length?_eq {xs : List α} (h : xs.length ≤ maxLength) :
    ∃ n, length? xs = some n ∧ n.toNat = xs.length := by
  have hlt : xs.length < UInt64.size := Nat.lt_of_le_of_lt h (by decide)
  exact ⟨_, if_pos hlt, UInt64.toNat_ofNat_of_lt' hlt⟩

theorem range?_eq {xs : List α} {start stop : Word} (h : start.toNat ≤ stop.toNat)
    (hstop : stop.toNat ≤ xs.length) :
    range? xs start stop = some ((xs.take stop.toNat).drop start.toNat) :=
  if_pos ⟨UInt64.le_iff_toNat_le.2 h, hstop⟩

theorem exists_countWhile?_eq (test : α → Bool) {n : Word} {xs : List α}
    (h : n.toNat + xs.length ≤ maxLength) :
    ∃ m, countWhile? test n xs = some m ∧ m.toNat = n.toNat + (xs.takeWhile test).length := by
  induction xs generalizing n with
  | nil => exact ⟨n, rfl, rfl⟩
  | cons x xs ih =>
    rw [List.length_cons] at h
    by_cases hx : test x = true
    · obtain ⟨next, hnext, hnextNat⟩ := exists_succ?_eq (n := n) (by omega)
      obtain ⟨m, hm, hmNat⟩ := ih (n := next) (by omega)
      refine ⟨m, ?_, ?_⟩
      · rw [countWhile?, if_pos hx, hnext, Option.bind_some, hm]
      · rw [List.takeWhile_cons_of_pos hx, List.length_cons]
        omega
    · refine ⟨n, ?_, ?_⟩
      · rw [countWhile?, if_neg hx]
      · rw [List.takeWhile_cons_of_neg hx, List.length_nil, Nat.add_zero]

end Word

/-! ## High ceilings -/

namespace Ceiling

theorem Exceeds.min_add {ceiling : Ceiling} {k : Nat} (h : ceiling.Exceeds k) (m n : Nat) :
    min (ceiling.add m n) k = min (m + n) k := by
  cases ceiling with
  | none => rfl
  | some top =>
    have htop := h top rfl
    rw [add]
    omega

/-- A number below a ceiling is a sum under the ceiling if it is the whole sum. -/
theorem Exceeds.eq_add_iff {ceiling : Ceiling} {k : Nat} (h : ceiling.Exceeds k) (m n : Nat) :
    k = ceiling.add m n ↔ k = m + n := by
  cases ceiling with
  | none => rfl
  | some top =>
    have htop := h top rfl
    rw [add]
    omega

/-- The ceiling is above the sum of two positions in a list. -/
def IsHigh (ceiling : Ceiling) : Prop := ceiling.Exceeds (2 * maxLength)

theorem isHigh_wordCeiling : IsHigh wordCeiling := by
  intro top htop
  rw [wordCeiling, Option.some.injEq] at htop
  rw [← htop]
  decide

theorem isHigh_none : IsHigh none := nofun

/-- Under a high ceiling, two small words have the sum that they have as words. -/
theorem IsHigh.add_eq_addCapped {ceiling : Ceiling} (h : ceiling.IsHigh) {m n : Word}
    (hsum : m.toNat + n.toNat ≤ 2 * maxLength) :
    ceiling.add m.toNat n.toNat = (Word.addCapped m n).toNat := by
  rw [Word.toNat_addCapped, h.add_eq hsum, isHigh_wordCeiling.add_eq hsum]

end Ceiling

/-! ## Stores that work on words -/

/-- Stores of a size that count and slice with words. There is nothing to slice beyond their end, and
no view of them is larger. -/
class WordStore (C : Type) (R E : outParam Type) [Store C R E] where
  size : C → Nat
  count? : C → Option (Except E Word)
  slice? : C → Word → Word → Option (Except E (List R))
  count?_eq : ∀ {c : C}, size c ≤ maxLength →
    (count? c).map (·.map UInt64.toNat) = some (Store.count c)
  slice?_eq : ∀ {c : C}, size c ≤ maxLength → ∀ start stop : Word,
    slice? c start stop = some (Store.slice c start.toNat stop.toNat)
  size_select_le : ∀ {c kept : C} {path : Path} {filter : Filter},
    Store.select c path filter = .ok kept → size kept ≤ size c
  size_reverse : ∀ c : C, size (Store.reverse c) = size c
  slice_min : ∀ (c : C) (start stop : Nat),
    Store.slice c start (min stop (size c)) = Store.slice c start stop
  length_slice : ∀ {c : C} {start stop : Nat} {cut : List R},
    Store.slice c start stop = .ok cut → cut.length = min stop (size c) - start

namespace WordStore

variable {C R E : Type} [Store C R E] [WordStore C R E] {c : C} {start stop : Nat} {cut : List R}

/-- A sum under a ceiling reaches as far into a store as the whole sum. -/
theorem slice_add {ceiling : Ceiling} (h : ceiling.Exceeds (size c)) (start m n : Nat) :
    Store.slice c start (ceiling.add m n) = Store.slice c start (m + n) := by
  rw [← slice_min c start (ceiling.add m n), h.min_add, slice_min]

theorem length_slice_le (h : Store.slice c start stop = .ok cut) : cut.length ≤ size c := by
  have hlength := length_slice h
  omega

theorem start_lt_size (h : Store.slice c start stop = .ok cut) (hcut : 0 < cut.length) :
    start < size c := by
  have hlength := length_slice h
  omega

end WordStore

/-! ## Runs that succeed -/

section

variable {ε ε' α β : Type}

theorem exists_of_bind_eq_ok {run : Except ε α} {next : α → Except ε β} {b : β}
    (h : run >>= next = .ok b) : ∃ a, run = .ok a ∧ next a = .ok b := by
  cases run with
  | error e => cases h
  | ok a => exact ⟨a, rfl, h⟩

theorem of_mapError_eq_ok {run : Except ε α} {f : ε → ε'} {a : α}
    (h : run.mapError f = .ok a) : run = .ok a := by
  cases run with
  | error e => cases h
  | ok b => exact congrArg _ (Except.ok.inj h)

end

/-! ## Tables -/

theorem sublist_of_keepM {ε α : Type} {test : α → Except ε Bool} {xs kept : List α}
    (h : keepM test xs = .ok kept) : kept.Sublist xs := by
  induction xs generalizing kept with
  | nil =>
    cases h
    exact .slnil
  | cons x xs ih =>
    obtain ⟨keep, _, h⟩ := exists_of_bind_eq_ok h
    obtain ⟨rest, hrest, h⟩ := exists_of_bind_eq_ok h
    cases h
    cases keep with
    | false => exact (ih hrest).cons x
    | true => exact (ih hrest).cons_cons x

namespace Table

variable {R : Type} [Record R]

/-- Moving the bounds of a part into the list does not change the part. -/
private theorem drop_take_moved {α : Type} (xs : List α) (start stop : Nat) :
    (xs.take (max (min start xs.length) (min stop xs.length))).drop (min start xs.length) =
      (xs.take stop).drop start := by
  rw [List.drop_take, List.drop_take]
  by_cases hstart : start ≤ xs.length
  · rw [Nat.min_eq_left hstart, List.take_eq_take_iff, List.length_drop]
    omega
  · rw [List.drop_of_length_le (by omega), List.drop_of_length_le (by omega), List.take_nil,
      List.take_nil]

/-- The records between two positions, which are moved into the table first. -/
def slice? (table : Table R) (start stop : Word) : Option (List R) := do
  let length ← Word.length? table.records
  let start := min start length
  let stop ← Word.clamp? stop start length
  Word.range? table.records start stop

omit [Record R] in
theorem slice?_eq {table : Table R} (h : table.records.length ≤ maxLength) (start stop : Word) :
    table.slice? start stop =
      some ((table.records.take stop.toNat).drop start.toNat) := by
  obtain ⟨length, hlength, hlengthNat⟩ := Word.exists_length?_eq h
  have hstart : (min start length).toNat = min start.toNat table.records.length := by
    rw [UInt64.toNat_min, hlengthNat]
  have hle : (min start length).toNat ≤ length.toNat := by omega
  obtain ⟨last, hlast, hlastNat⟩ := Word.exists_clamp?_eq stop hle
  have hrange : Word.range? table.records (min start length) last = _ :=
    Word.range?_eq (by omega) (by omega)
  simp only [slice?, hlength, Option.bind_eq_bind, Option.bind_some, hlast, hrange, hstart,
    hlastNat, hlengthNat, drop_take_moved]

instance : WordStore (Table R) R Incomparable where
  size table := table.records.length
  count? table := (Word.length? table.records).map .ok
  slice? table start stop := (table.slice? start stop).map .ok
  count?_eq := by
    intro table h
    obtain ⟨length, hlength, hlengthNat⟩ := Word.exists_length?_eq h
    simp only [hlength, Option.map_some, Except.map, hlengthNat, Store.count]
  slice?_eq := by
    intro table h start stop
    rw [slice?_eq h, Option.map_some]
    rfl
  size_select_le := by
    intro table kept path filter h
    obtain ⟨records, hrecords, hkept⟩ := exists_of_bind_eq_ok h
    cases hkept
    exact (sublist_of_keepM hrecords).length_le
  size_reverse table := List.length_reverse
  slice_min := by
    intro table start stop
    simp only [Store.slice, ← List.take_take, List.take_length]
  length_slice := by
    intro table start stop cut h
    rw [← Except.ok.inj h, List.length_drop, List.length_take]

end Table

namespace Outage

variable {C R E α β : Type} {outage : Outage C} {operations : List StoreOperation}

/-- The operation of the store inside on words, unless it is out of order. -/
def guard? (outage : Outage C) (operations : List StoreOperation)
    (run : Option (Except E α)) : Option (Except (OutageError E) α) :=
  match operations.find? outage.failing.contains with
  | some operation => some (.error (.unavailable operation))
  | none => run.map (·.mapError .store)

theorem map_guard? {f : α → β} {run : Option (Except E α)} {result : Except E β}
    (h : run.map (·.map f) = some result) :
    (outage.guard? operations run).map (·.map f) = some (outage.guard operations result) := by
  rw [guard?, guard]
  cases operations.find? outage.failing.contains with
  | some operation => rfl
  | none =>
    obtain ⟨r, rfl, rfl⟩ := Option.map_eq_some_iff.1 h
    cases r <;> rfl

theorem guard?_some (result : Except E α) :
    outage.guard? operations (some result) = some (outage.guard operations result) := by
  rw [guard?, guard]
  cases operations.find? outage.failing.contains <;> rfl

theorem of_guard_eq_ok {run : Except E α} {a : α} (h : outage.guard operations run = .ok a) :
    run = .ok a := by
  rw [guard] at h
  split at h
  · cases h
  · exact of_mapError_eq_ok h

instance [Store C R E] [WordStore C R E] : WordStore (Outage C) R (OutageError E) where
  size outage := WordStore.size outage.store
  count? outage := outage.guard? [.count] (WordStore.count? outage.store)
  slice? outage start stop := outage.guard? [.slice] (WordStore.slice? outage.store start stop)
  count?_eq h := map_guard? (WordStore.count?_eq h)
  slice?_eq := by
    intro outage h start stop
    rw [WordStore.slice?_eq h, guard?_some]
    rfl
  size_select_le := by
    intro outage kept path filter h
    simp only [Store.select] at h
    cases hview : outage.guard (if filter.isEquality then [.filter, .equal] else [.filter])
        (Store.select outage.store path filter) with
    | error e => simp [hview, Except.map] at h
    | ok view =>
      simp only [hview, Except.map, Except.ok.injEq] at h
      subst h
      exact WordStore.size_select_le (of_guard_eq_ok hview)
  size_reverse outage := WordStore.size_reverse outage.store
  slice_min := by
    intro outage start stop
    simp only [Store.slice]
    rw [WordStore.slice_min]
  length_slice h := WordStore.length_slice (of_guard_eq_ok h)

end Outage

end Keyset
