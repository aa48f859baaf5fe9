import Std.Data.String.ToNat
import Mathlib.Data.List.Dedup
import Mathlib.Data.List.Nodup
import Mathlib.Data.List.Perm.Subperm
import Mathlib.Data.List.Range
import FlowNest.FreshName

/-!
# FlowNest — fresh names are fresh

The candidates for a name are all different, so among one more of them than there are taken
names one is free. A search that looks at one candidate after the other therefore ends, and
it ends at the name that the bounded search finds, unless the number that it counts with
leaves its 32 bits before. Names given in turn, each of which is taken from then on, all
differ.

* `freshName_not_mem`          — the name found is not taken;
* `FirstFree.length_dedup_le`  — it is found after as many candidates as there are taken names;
* `NameSearch.ends_iff`        — where and when the counting search ends;
* `nodup_freshNames`           — names given in turn differ;
* `InTurn.eq_freshNames`       — counting searches in turn give these names.
-/

namespace FlowNest

variable {taken : List String} {base : String} {i k : Nat}

/-! ## The first free candidate -/

theorem nameCandidate_zero_ne (base : String) (k : Nat) :
    nameCandidate base 0 ≠ nameCandidate base (k + 1) := by
  intro h
  -- the length tells the base from all others, whatever their numbers
  have hLength := congrArg String.length h
  simp only [nameCandidate, String.length_append] at hLength
  rw [show "_".length = 1 from rfl] at hLength
  omega

theorem nameCandidate_injective (base : String) : Function.Injective (nameCandidate base) := by
  intro i j h
  cases i with
  | zero =>
    cases j with
    | zero => rfl
    | succ j => exact absurd h (nameCandidate_zero_ne base j)
  | succ i =>
    cases j with
    | zero => exact absurd h.symm (nameCandidate_zero_ne base i)
    | succ j =>
      -- the numbers are written in different ways
      rw [nameCandidate, nameCandidate, String.append_right_inj] at h
      have := Nat.repr_injective h
      omega

/-- A candidate is free, and those before it are taken. -/
structure FirstFree (taken : List String) (base : String) (k : Nat) : Prop where
  free : nameCandidate base k ∉ taken
  earlier : ∀ j < k, nameCandidate base j ∈ taken

/-- Where the first `k` candidates are taken, there are `k` taken names. -/
theorem le_length_dedup (hTaken : ∀ j < k, nameCandidate base j ∈ taken) :
    k ≤ taken.dedup.length := by
  -- the candidates are all different, so each is one of the taken names of its own
  have hNodup : ((List.range k).map (nameCandidate base)).Nodup :=
    List.nodup_range.map (nameCandidate_injective base)
  have hSubset : (List.range k).map (nameCandidate base) ⊆ taken.dedup := by
    intro name hName
    obtain ⟨j, hj, rfl⟩ := List.mem_map.mp hName
    exact List.mem_dedup.mpr (hTaken j (List.mem_range.mp hj))
  have hLe := (List.subperm_of_subset hNodup hSubset).length_le
  rwa [List.length_map, List.length_range] at hLe

/-- The name that is found is the first free candidate. -/
theorem exists_firstFree (taken : List String) (base : String) :
    ∃ k, FirstFree taken base k ∧ freshName taken base = nameCandidate base k := by
  rw [freshName, List.find?_map]
  cases hFind : (List.range (taken.length + 1)).find?
      ((fun name => decide (name ∉ taken)) ∘ nameCandidate base) with
  | none =>
    -- one candidate more than there are names would be taken
    have hAll : ∀ j < taken.length + 1, nameCandidate base j ∈ taken := by
      intro j hj
      simpa using List.find?_eq_none.mp hFind j (List.mem_range.mpr hj)
    have hLe := (le_length_dedup hAll).trans (List.dedup_sublist taken).length_le
    omega
  | some k =>
    obtain ⟨hFree, -, hTaken⟩ := List.find?_range_eq_some.mp hFind
    exact ⟨k, ⟨by simpa using hFree, by simpa using hTaken⟩, rfl⟩

namespace FirstFree

theorem length_dedup_le (h : FirstFree taken base k) : k ≤ taken.dedup.length :=
  le_length_dedup h.earlier

theorem unique {j : Nat} (h : FirstFree taken base k) (h' : FirstFree taken base j) : k = j := by
  rcases Nat.lt_trichotomy k j with hLt | rfl | hLt
  · exact absurd (h'.earlier k hLt) h.free
  · rfl
  · exact absurd (h.earlier j hLt) h'.free

theorem freshName_eq (h : FirstFree taken base k) :
    freshName taken base = nameCandidate base k := by
  obtain ⟨j, hFirst, hName⟩ := exists_firstFree taken base
  rw [hName, h.unique hFirst]

/-- Which candidate it is depends on which names are taken, and on nothing else. -/
theorem congr {other : List String} (hSame : ∀ name, name ∈ other ↔ name ∈ taken)
    (h : FirstFree taken base k) : FirstFree other base k where
  free := mt (hSame _).mp h.free
  earlier j hj := (hSame _).mpr (h.earlier j hj)

end FirstFree

theorem freshName_not_mem (taken : List String) (base : String) : freshName taken base ∉ taken := by
  obtain ⟨k, hFirst, hName⟩ := exists_firstFree taken base
  rw [hName]
  exact hFirst.free

theorem freshName_congr {other : List String} (hSame : ∀ name, name ∈ other ↔ name ∈ taken)
    (base : String) : freshName other base = freshName taken base := by
  obtain ⟨k, hFirst, hName⟩ := exists_firstFree taken base
  rw [hName, (hFirst.congr hSame).freshName_eq]

theorem freshName_eq_base (hFree : base ∉ taken) : freshName taken base = base :=
  FirstFree.freshName_eq (k := 0) ⟨hFree, fun _ hj => absurd hj (Nat.not_lt_zero _)⟩

/-- A base that is taken gets the least number from 2 on with which it is free. -/
theorem exists_freshName_eq_append (hTaken : base ∈ taken) :
    ∃ k, 2 ≤ k ∧ freshName taken base = base ++ "_" ++ toString k ∧
      ∀ j, 2 ≤ j → j < k → base ++ "_" ++ toString j ∈ taken := by
  obtain ⟨k, hFirst, hName⟩ := exists_firstFree taken base
  cases k with
  | zero => exact absurd hTaken hFirst.free
  | succ k =>
    refine ⟨k + 2, Nat.le_add_left 2 k, hName, ?_⟩
    intro j hTwo hj
    -- the number `j` is that of the candidate `j - 1`
    obtain ⟨j, rfl⟩ := Nat.exists_eq_add_of_le' hTwo
    exact hFirst.earlier (j + 1) (by omega)

/-! ## A search that counts -/

/-- A search for a free name on its way: the candidate it looks at, and the number that
the one after it will have. -/
structure NameSearch where
  candidate : String
  number : Int32

namespace NameSearch

/-- The rounds that a search can make before its number leaves the 32 bits. In the one after
them it would have to count past the greatest number that they hold. -/
def mostRounds : Nat := 2147483646

/-- A search begins with the base itself. -/
def start (base : String) : NameSearch :=
  ⟨base, 2⟩

/-- The search at the candidate after this one. -/
def next (base : String) (s : NameSearch) : NameSearch :=
  ⟨base ++ "_" ++ toString s.number, s.number + 1⟩

/-- A search that ends after so many rounds, and where. Each round looks at one candidate:
the search ends if it is free, and goes on to the next one otherwise. -/
inductive Ends (taken : List String) (base : String) : NameSearch → Nat → NameSearch → Prop where
  | free {s : NameSearch} (hFree : s.candidate ∉ taken) : Ends taken base s 1 s
  | next {s last : NameSearch} {rounds : Nat} (hTaken : s.candidate ∈ taken)
      (hNext : Ends taken base (s.next base) rounds last) : Ends taken base s (rounds + 1) last

theorem Ends.unique {s last last' : NameSearch} {rounds rounds' : Nat}
    (h : Ends taken base s rounds last) (h' : Ends taken base s rounds' last') :
    rounds = rounds' ∧ last = last' := by
  -- whether the candidate is taken decides how both go on
  induction h generalizing rounds' with
  | free hFree =>
    cases h' with
    | free _ => exact ⟨rfl, rfl⟩
    | next hTaken _ => exact absurd hTaken hFree
  | next hTaken _ ih =>
    cases h' with
    | free hFree => exact absurd hTaken hFree
    | next _ hNext =>
      obtain ⟨rfl, rfl⟩ := ih hNext
      exact ⟨rfl, rfl⟩

/-- The search at one of the candidates for the name, by its place. -/
def reached (base : String) (i : Nat) : NameSearch :=
  ⟨nameCandidate base i, .ofNat (i + 2)⟩

/-- In its range, the number is written like a natural one. -/
theorem toString_ofNat {n : Nat} (hRange : n ≤ mostRounds + 1) :
    toString (Int32.ofNat n) = toString n := by
  show toString (Int32.ofNat n).toInt = toString n
  rw [Int32.toInt_ofNat_of_lt (Nat.lt_succ_of_le hRange)]
  rfl

/-- While there is room for its number, a search comes to the candidates in their order. -/
theorem next_reached (base : String) (hRoom : i < mostRounds) :
    next base (reached base i) = reached base (i + 1) := by
  have hRange : i + 2 ≤ mostRounds + 1 := Nat.succ_le_succ hRoom
  have hNumber : Int32.ofNat (i + 2) + 1 = Int32.ofNat (i + 1 + 2) :=
    (Int32.ofNat_add (i + 2) 1).symm
  simp only [next, reached, nameCandidate, toString_ofNat hRange, hNumber]

/-- From a candidate on, the search comes to the first free one by one round for each. -/
theorem ends_from (hFirst : FirstFree taken base k) (hRoom : k < mostRounds) {d : Nat}
    (hDistance : i + d = k) : (reached base i).Ends taken base (d + 1) (reached base k) := by
  -- on the number of candidates that are still between, all of them taken
  induction d generalizing i with
  | zero =>
    obtain rfl : i = k := hDistance
    exact .free hFirst.free
  | succ d ih =>
    have hNext := ih (i := i + 1) (by omega)
    rw [← next_reached base (by omega)] at hNext
    exact .next (hFirst.earlier i (by omega)) hNext

/-- Within the room for its number, a search that has passed only taken candidates ends at
the first free one. -/
theorem Ends.exists_firstFree {rounds : Nat} {last : NameSearch}
    (h : (reached base i).Ends taken base rounds last)
    (hEarlier : ∀ j < i, nameCandidate base j ∈ taken) (hRoom : i + rounds ≤ mostRounds) :
    ∃ k, FirstFree taken base k ∧ i + rounds = k + 1 ∧ last = reached base k := by
  generalize hStart : reached base i = s at h
  -- on the rounds: each that goes on has passed one more
  induction h generalizing i with
  | free hFree =>
    subst hStart
    exact ⟨i, ⟨hFree, hEarlier⟩, rfl, rfl⟩
  | @next s last rounds hTaken hNext ih =>
    subst hStart
    have hPassed : ∀ j < i + 1, nameCandidate base j ∈ taken := by
      intro j hj
      rcases Nat.lt_succ_iff_lt_or_eq.mp hj with hj | rfl
      · exact hEarlier j hj
      · exact hTaken
    obtain ⟨k, hFirst, hRounds, hLast⟩ :=
      ih hPassed (by omega) (next_reached base (by omega)).symm
    exact ⟨k, hFirst, by omega, hLast⟩

/-- Within the rounds that there is room for, a search ends where the first free candidate is
looked at, and nowhere else. -/
theorem ends_iff (hFirst : FirstFree taken base k) {rounds : Nat} (hRoom : rounds ≤ mostRounds)
    {last : NameSearch} :
    (start base).Ends taken base rounds last ↔ rounds = k + 1 ∧ last = reached base k := by
  constructor
  · intro h
    obtain ⟨j, hFound, hRounds, rfl⟩ :=
      h.exists_firstFree (i := 0) (fun _ hj => absurd hj (Nat.not_lt_zero _)) (by omega)
    obtain rfl := hFirst.unique hFound
    exact ⟨by omega, rfl⟩
  · rintro ⟨rfl, rfl⟩
    exact ends_from hFirst hRoom (Nat.zero_add k)

/-- Only what is taken matters for a search, not in which order. -/
theorem Ends.congr {other : List String} (hSame : ∀ name, name ∈ other ↔ name ∈ taken)
    {s last : NameSearch} {rounds : Nat} (h : s.Ends taken base rounds last) :
    s.Ends other base rounds last := by
  induction h with
  | free hFree => exact .free (mt (hSame _).mp hFree)
  | next hTaken _ ih => exact .next ((hSame _).mpr hTaken) ih

/-- Within the rounds that there is room for, a search ends at the name that is found. -/
theorem Ends.candidate_eq {rounds : Nat} {last : NameSearch}
    (h : (start base).Ends taken base rounds last) (hRoom : rounds ≤ mostRounds) :
    last.candidate = freshName taken base := by
  obtain ⟨k, hFirst, hName⟩ := FlowNest.exists_firstFree taken base
  obtain ⟨-, rfl⟩ := (ends_iff hFirst hRoom).mp h
  exact hName.symm

/-- However many names are taken, a search ends at the name that is found, in one round more
than there are taken names at most, if it ends within the rounds that there is room for. -/
theorem exists_ends_iff (taken : List String) (base : String) :
    ∃ rounds ≤ taken.dedup.length + 1, ∀ n ≤ mostRounds, ∀ last,
      (start base).Ends taken base n last ↔
        n = rounds ∧ last = ⟨freshName taken base, .ofNat (rounds + 1)⟩ := by
  obtain ⟨k, hFirst, hName⟩ := exists_firstFree taken base
  refine ⟨k + 1, Nat.succ_le_succ hFirst.length_dedup_le, ?_⟩
  intro n hRoom last
  rw [ends_iff hFirst hRoom, hName]
  rfl

/-- With room for one round more than there are taken names, it does end. -/
theorem exists_ends_iff_of_room (hRoom : taken.dedup.length < mostRounds) (base : String) :
    ∃ rounds ≤ taken.dedup.length + 1, ∀ n last,
      (start base).Ends taken base n last ↔
        n = rounds ∧ last = ⟨freshName taken base, .ofNat (rounds + 1)⟩ := by
  obtain ⟨rounds, hRounds, hWithin⟩ := exists_ends_iff taken base
  have hEnds := (hWithin rounds (by omega) _).mpr ⟨rfl, rfl⟩
  refine ⟨rounds, hRounds, ?_⟩
  intro n last
  -- with room enough the one end within the counter's range is the only one
  constructor
  · intro h
    exact h.unique hEnds
  · rintro ⟨rfl, rfl⟩
    exact hEnds

end NameSearch

/-! ## Names given in turn -/

/-- Names for several bases, one after the other. Each is taken from then on. -/
def freshNames : List String → List String → List String
  | _, [] => []
  | taken, base :: rest =>
    freshName taken base :: freshNames (freshName taken base :: taken) rest

theorem not_mem_of_mem_freshNames {bases : List String} {name : String}
    (h : name ∈ freshNames taken bases) : name ∉ taken := by
  induction bases generalizing taken with
  | nil => cases h
  | cons base rest ih =>
    rcases List.mem_cons.mp h with rfl | h
    · exact freshName_not_mem taken base
    · exact fun hTaken => ih h (List.mem_cons_of_mem _ hTaken)

theorem nodup_freshNames (taken bases : List String) : (freshNames taken bases).Nodup := by
  induction bases generalizing taken with
  | nil => exact .nil
  | cons base rest ih =>
    rw [freshNames, List.nodup_cons]
    -- the later names are given where the first is taken
    exact ⟨fun hMem => not_mem_of_mem_freshNames hMem List.mem_cons_self, ih _⟩

/-- A base may look like a name that was given. -/
example : freshNames ["out"] ["out_2", "out", "out_2"] = ["out_2", "out_3", "out_2_2"] := by
  decide +kernel

theorem length_freshNames (taken bases : List String) :
    (freshNames taken bases).length = bases.length := by
  induction bases generalizing taken with
  | nil => rfl
  | cons base rest ih => rw [freshNames, List.length_cons, ih, List.length_cons]

theorem freshNames_congr {other : List String} (hSame : ∀ name, name ∈ other ↔ name ∈ taken)
    (bases : List String) : freshNames other bases = freshNames taken bases := by
  induction bases generalizing taken other with
  | nil => rfl
  | cons base rest ih =>
    rw [freshNames, freshNames, freshName_congr hSame]
    refine congrArg _ (ih fun name => ?_)
    rw [List.mem_cons, List.mem_cons, hSame]

/-- Searches for several names that end one after the other, each within the room for its
number. Where one ends, the name there is taken for those that come after it. -/
inductive InTurn : List String → List String → List String → List String → Prop where
  | none {taken : List String} : InTurn taken [] [] taken
  | one {taken bases names taken' : List String} {base : String} {rounds : Nat}
      {last : NameSearch} (hRoom : rounds ≤ NameSearch.mostRounds)
      (hEnds : (NameSearch.start base).Ends taken base rounds last)
      (hRest : InTurn (last.candidate :: taken) bases names taken') :
      InTurn taken (base :: bases) (last.candidate :: names) taken'

namespace InTurn

variable {bases names taken' : List String}

/-- The names given in turn are those that the searches end at. -/
theorem eq_freshNames (h : InTurn taken bases names taken') : names = freshNames taken bases := by
  induction h with
  | none => rfl
  | @one taken bases names taken' base rounds last hRoom hEnds _ ih =>
    rw [ih, hEnds.candidate_eq hRoom, freshNames]

/-- They are taken afterwards, and no others are besides those from before. -/
theorem perm_taken (h : InTurn taken bases names taken') : taken'.Perm (names ++ taken) := by
  induction h with
  | none => exact .refl _
  | one _ _ _ ih => exact ih.trans List.perm_middle

end InTurn

theorem length_dedup_cons_le (taken : List String) (name : String) :
    (name :: taken).dedup.length ≤ taken.dedup.length + 1 := by
  by_cases hTaken : name ∈ taken
  · rw [List.dedup_cons_of_mem hTaken]
    exact Nat.le_succ _
  · rw [List.dedup_cons_of_notMem hTaken, List.length_cons]

/-- With room for all names, those that are taken and those that are given, all searches
end. -/
theorem exists_inTurn {bases : List String}
    (hRoom : taken.dedup.length + bases.length ≤ NameSearch.mostRounds) :
    ∃ taken', InTurn taken bases (freshNames taken bases) taken' := by
  induction bases generalizing taken with
  | nil => exact ⟨taken, .none⟩
  | cons base bases ih =>
    rw [List.length_cons] at hRoom
    obtain ⟨k, hFirst, hName⟩ := exists_firstFree taken base
    -- this name takes one round more than there are taken names, and leaves room for the rest
    have hRounds : k + 1 ≤ NameSearch.mostRounds := by
      have hLe := hFirst.length_dedup_le
      omega
    have hRest : (freshName taken base :: taken).dedup.length + bases.length ≤
        NameSearch.mostRounds := by
      have hLe := length_dedup_cons_le taken (freshName taken base)
      omega
    obtain ⟨taken', hTurns⟩ := ih hRest
    have hEnds := (NameSearch.ends_iff hFirst hRounds).mpr ⟨rfl, rfl⟩
    rw [freshNames]
    rw [hName] at hTurns ⊢
    exact ⟨taken', .one hRounds hEnds hTurns⟩

end FlowNest
