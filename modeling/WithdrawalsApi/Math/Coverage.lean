/-
# First coverage of a need by scheduled inflows

An estimate asks for the first position of a line at which enough has come in.
This module separates the two ideas such an estimate combines. A source reaches
a set of positions and offers the least of them, or nothing when it reaches
none (`Picks`); several sources offer the least position that any of them
reaches. One kind of source releases listed amounts at listed positions and
accrues a constant rate in between (`firstCovering`): the scan that consumes
the list finds exactly the least listed position whose total covers the need.

Monotonicity never needs the scan. It is inclusion of the reached sets.
-/

import Mathlib.Algebra.BigOperators.Group.List.Basic
import Mathlib.Algebra.Order.Group.Basic
import Mathlib.Algebra.Order.Group.Defs
import Mathlib.Algebra.Order.Group.Int
import Mathlib.Order.Bounds.Basic
import Mathlib.Order.UpperLower.Basic
import Mathlib.Tactic.Abel
import Mathlib.Tactic.Linarith

namespace WithdrawalsApi.Math

universe u v w

/-! ## Sources that offer their least position -/

section Picks

variable {ι : Type u} [LinearOrder ι]

/-- A candidate is the least element of the reached set, and it is absent
exactly when nothing is reached. -/
def Picks (candidate : Option ι) (reached : Set ι) : Prop :=
  match candidate with
  | none => reached = ∅
  | some position => IsLeast reached position

@[simp]
theorem picks_none {reached : Set ι} : Picks none reached ↔ reached = ∅ := Iff.rfl

@[simp]
theorem picks_some {position : ι} {reached : Set ι} :
    Picks (some position) reached ↔ IsLeast reached position := Iff.rfl

/-- A reached position certifies that there is a candidate, not later than it. -/
theorem Picks.exists_le_of_mem {candidate : Option ι} {reached : Set ι} {position : ι}
    (hpicks : Picks candidate reached) (hmem : position ∈ reached) :
    ∃ chosen, candidate = some chosen ∧ chosen ≤ position := by
  cases candidate with
  | none =>
      have hempty : reached = ∅ := hpicks
      exact absurd hmem (by simp [hempty])
  | some chosen => exact ⟨chosen, rfl, hpicks.2 hmem⟩

/-- Upward closed sets with one candidate are one set. -/
theorem Picks.eq_of_isUpperSet {candidate : Option ι} {first second : Set ι}
    (hfirst : Picks candidate first) (hsecond : Picks candidate second)
    (hfirstUpper : IsUpperSet first) (hsecondUpper : IsUpperSet second) : first = second := by
  cases candidate with
  | none => exact (show first = ∅ from hfirst).trans (show second = ∅ from hsecond).symm
  | some position =>
      have hfirstLeast : IsLeast first position := hfirst
      have hsecondLeast : IsLeast second position := hsecond
      ext other
      exact ⟨fun h => hsecondUpper (hfirstLeast.2 h) hsecondLeast.1,
        fun h => hfirstUpper (hsecondLeast.2 h) hfirstLeast.1⟩

/-- The least of a set is the least of any part of it that has, below every
element, one of its own. -/
theorem Picks.of_subset {candidate : Option ι} {small large : Set ι}
    (hpicks : Picks candidate large) (hsubset : small ⊆ large)
    (hbelow : ∀ position ∈ large, ∃ other ∈ small, other ≤ position) :
    Picks candidate small := by
  cases candidate with
  | none =>
      have hempty : large = ∅ := hpicks
      exact Set.subset_eq_empty hsubset hempty
  | some position =>
      have hleast : IsLeast large position := hpicks
      obtain ⟨other, hother, hle⟩ := hbelow position hleast.1
      have heq : position = other := le_antisymm (hleast.2 (hsubset hother)) hle
      exact ⟨heq ▸ hother, fun _ hmem => hleast.2 (hsubset hmem)⟩

/-- What a candidate says of a reached set, in both directions. -/
theorem Picks.eq_none_iff {candidate : Option ι} {reached : Set ι}
    (hpicks : Picks candidate reached) : candidate = none ↔ reached = ∅ := by
  cases candidate with
  | none => exact iff_of_true rfl hpicks
  | some position =>
      have hleast : IsLeast reached position := hpicks
      exact iff_of_false (Option.some_ne_none position) hleast.nonempty.ne_empty

theorem Picks.eq_some_iff {candidate : Option ι} {reached : Set ι}
    (hpicks : Picks candidate reached) {position : ι} :
    candidate = some position ↔ IsLeast reached position := by
  constructor
  · rintro rfl
    exact hpicks
  · intro hleast
    obtain ⟨chosen, rfl, -⟩ := hpicks.exists_le_of_mem hleast.1
    exact congrArg some ((show IsLeast reached chosen from hpicks).unique hleast)

/-- What is left of a reached set when its least element is not accepted if it
is the position `discarded`: nothing at all in that case, everything otherwise. -/
def discardLeast (discarded : ι) (reached : Set ι) : Set ι :=
  { position | position ∈ reached ∧ ¬ IsLeast reached discarded }

theorem discardLeast_subset (discarded : ι) (reached : Set ι) :
    discardLeast discarded reached ⊆ reached := fun _ h => h.1

theorem discardLeast_eq_self {discarded : ι} {reached : Set ι}
    (h : ¬ IsLeast reached discarded) : discardLeast discarded reached = reached := by
  ext position
  simp [discardLeast, h]

/-- Filtering one value out of the candidates discards the sets it is least of. -/
theorem Picks.discard {candidate : Option ι} {reached : Set ι} (discarded : ι)
    (hpicks : Picks candidate reached) :
    Picks (candidate.filter fun position => decide (position ≠ discarded))
      (discardLeast discarded reached) := by
  cases candidate with
  | none =>
      have hempty : reached = ∅ := hpicks
      simp [discardLeast, hempty]
  | some position =>
      have hleast : IsLeast reached position := hpicks
      by_cases heq : position = discarded
      · subst heq
        have hnothing : discardLeast position reached = ∅ := by simp [discardLeast, hleast]
        simp [Option.filter, hnothing]
      · have hnot : ¬ IsLeast reached discarded := fun h => heq (hleast.unique h)
        rw [discardLeast_eq_self hnot]
        simpa [Option.filter, heq] using hleast

/-- The least of the offered candidates is the least position that any of the
sources reaches. -/
theorem isLeast_iUnion_iff_of_picks {sources : List (Option ι × Set ι)}
    (hpicks : ∀ source ∈ sources, Picks source.1 source.2) {position : ι} :
    IsLeast { reached | ∃ source ∈ sources, reached ∈ source.2 } position ↔
      position ∈ sources.filterMap Prod.fst ∧
        ∀ other ∈ sources.filterMap Prod.fst, position ≤ other := by
  have hoffered {other : ι} (hother : other ∈ sources.filterMap Prod.fst) :
      ∃ source ∈ sources, other ∈ source.2 := by
    obtain ⟨source, hsource, hfst⟩ := List.mem_filterMap.mp hother
    have hleast := hpicks source hsource
    rw [hfst] at hleast
    exact ⟨source, hsource, hleast.1⟩
  have hbelow {reached : ι} (hreached : ∃ source ∈ sources, reached ∈ source.2) :
      ∃ other ∈ sources.filterMap Prod.fst, other ≤ reached := by
    obtain ⟨source, hsource, hmem⟩ := hreached
    obtain ⟨chosen, hchosen, hle⟩ := (hpicks source hsource).exists_le_of_mem hmem
    exact ⟨chosen, List.mem_filterMap.mpr ⟨source, hsource, hchosen⟩, hle⟩
  constructor
  · rintro ⟨hmem, hle⟩
    obtain ⟨other, hother, hotherLe⟩ := hbelow hmem
    obtain rfl : other = position := le_antisymm hotherLe (hle (hoffered hother))
    exact ⟨hother, fun offer hoffer => hle (hoffered hoffer)⟩
  · rintro ⟨hmem, hle⟩
    refine ⟨hoffered hmem, fun reached hreached => ?_⟩
    obtain ⟨other, hother, hotherLe⟩ := hbelow hreached
    exact (hle other hother).trans hotherLe

/-- A left fold that keeps its accumulator only when it is strictly smaller
ends in an entry of least key. -/
theorem foldl_keep_smaller_spec {α : Type v} (key : α → ι) (rest : List α) (start : α) :
    (rest.foldl (fun prev curr => if key prev < key curr then prev else curr) start) ∈
        start :: rest ∧
      ∀ entry ∈ start :: rest,
        key (rest.foldl (fun prev curr => if key prev < key curr then prev else curr) start) ≤
          key entry := by
  induction rest generalizing start with
  | nil => simp
  | cons curr rest ih =>
      obtain ⟨hmem, hle⟩ := ih (if key start < key curr then start else curr)
      simp only [List.foldl_cons]
      refine ⟨?_, ?_⟩
      · rcases List.mem_cons.mp hmem with hmem | hmem
        · rw [hmem]
          split <;> simp
        · simp [hmem]
      · intro entry hentry
        have hstart := hle _ List.mem_cons_self
        rcases List.mem_cons.mp hentry with rfl | hentry
        · refine hstart.trans ?_
          split
          · exact le_rfl
          · exact not_lt.mp ‹_›
        · rcases List.mem_cons.mp hentry with rfl | hentry
          · refine hstart.trans ?_
            split
            · exact le_of_lt ‹_›
            · exact le_rfl
          · exact hle entry (List.mem_cons_of_mem _ hentry)

/-- Of entries with one key the fold keeps the last. -/
theorem foldl_keep_smaller_last {α : Type v} (key : α → ι) (rest : List α) (start : α) :
    ∃ before after, start :: rest = before ++
        rest.foldl (fun prev curr => if key prev < key curr then prev else curr) start :: after ∧
      ∀ later ∈ after,
        key (rest.foldl (fun prev curr => if key prev < key curr then prev else curr) start) <
          key later := by
  induction rest generalizing start with
  | nil => exact ⟨[], [], rfl, fun _ hmem => absurd hmem List.not_mem_nil⟩
  | cons curr rest ih =>
      simp only [List.foldl_cons]
      split
      · next hlt =>
        obtain ⟨before, after, hsplit, hafter⟩ := ih start
        cases before with
        | nil =>
            rw [List.nil_append, List.cons.injEq] at hsplit
            refine ⟨[], curr :: rest, ?_, ?_⟩
            · rw [← hsplit.1]
              rfl
            · rw [← hsplit.1, hsplit.2]
              intro later hlater
              rcases List.mem_cons.mp hlater with rfl | hlater
              · exact hlt
              · exact hsplit.1 ▸ hafter later hlater
        | cons kept before =>
            rw [List.cons_append, List.cons.injEq] at hsplit
            exact ⟨start :: curr :: before, after,
              congrArg (fun tail => start :: curr :: tail) hsplit.2, hafter⟩
      · obtain ⟨before, after, hsplit, hafter⟩ := ih curr
        exact ⟨start :: before, after, congrArg (start :: ·) hsplit, hafter⟩

/-- What the fold keeps of the offers of several sources is an offer of the last source
that offers so little. -/
theorem exists_source_of_foldl_keep_smaller {σ : Type w} {α : Type v} (key : α → ι)
    (offers : σ → Option α) {sources : List σ} {start : α} {rest : List α}
    (h : sources.filterMap offers = start :: rest) :
    ∃ before source after, sources = before ++ source :: after ∧
      offers source =
        some (rest.foldl (fun prev curr => if key prev < key curr then prev else curr) start) ∧
      ∀ later ∈ after, ∀ offer ∈ offers later,
        key (rest.foldl (fun prev curr => if key prev < key curr then prev else curr) start) <
          key offer := by
  obtain ⟨kept, dropped, hsplit, hdropped⟩ := foldl_keep_smaller_last key rest start
  rw [hsplit] at h
  obtain ⟨before, rest', rfl, -, hrest⟩ := List.filterMap_eq_append_iff.mp h
  obtain ⟨silent, source, after, rfl, -, hsource, hafter⟩ := List.filterMap_eq_cons_iff.mp hrest
  refine ⟨before ++ silent, source, after, by rw [List.append_assoc], hsource, ?_⟩
  intro later hlater offer hoffer
  apply hdropped
  rw [← hafter]
  exact List.mem_filterMap.mpr ⟨later, hlater, hoffer⟩

end Picks

/-! ## Listed releases and a constant rate -/

section Releases

variable {M : Type u} [AddCommGroup M]

/-- What a constant rate brings in from one position to a later one. -/
def accrued (rate : M) (since position : ℤ) : M := max 0 (position - since) • rate

/-- The sum of the amounts released up to a position. -/
def released (releases : List (ℤ × M)) (position : ℤ) : M :=
  ((releases.filter fun release => decide (release.1 ≤ position)).map Prod.snd).sum

/-- Accrual splits at any position that has been passed. -/
theorem accrued_split (rate : M) {since middle position : ℤ} (h : middle ≤ position) :
    accrued rate since position =
      accrued rate since middle + accrued rate (max since middle) position := by
  have hsplit : max 0 (position - since) =
      max 0 (middle - since) + max 0 (position - max since middle) := by omega
  simp only [accrued, hsplit, add_zsmul]

theorem released_cons_of_le {release : ℤ × M} {releases : List (ℤ × M)} {position : ℤ}
    (h : release.1 ≤ position) :
    released (release :: releases) position = release.2 + released releases position := by
  simp [released, h]

/-- Nothing listed later has been released yet. -/
theorem released_eq_zero {releases : List (ℤ × M)} {position : ℤ}
    (h : ∀ release ∈ releases, position < release.1) : released releases position = 0 := by
  have hnil : (releases.filter fun release => decide (release.1 ≤ position)) = [] := by
    simpa [List.filter_eq_nil_iff] using h
  simp [released, hnil]

/-- The furthest position reached by a list of releases. -/
def furthest (since : ℤ) (releases : List (ℤ × M)) : ℤ :=
  releases.foldl (fun position release => max position release.1) since

/-- What the releases of a list bring in when they are taken one after another. -/
def takenIn (rate : M) (releases : List (ℤ × M)) (since : ℤ) : M :=
  (releases.map Prod.snd).sum + accrued rate since (furthest since releases)

omit [AddCommGroup M] in
theorem le_furthest (since : ℤ) (releases : List (ℤ × M)) : since ≤ furthest since releases := by
  induction releases generalizing since with
  | nil => exact le_rfl
  | cons release rest ih => exact (le_max_left _ _).trans (ih (max since release.1))

/-- Taking in a list is taking in its head and then the rest. -/
theorem takenIn_cons (rate : M) (release : ℤ × M) (rest : List (ℤ × M)) (since : ℤ) :
    takenIn rate (release :: rest) since =
      release.2 + accrued rate since release.1 + takenIn rate rest (max since release.1) := by
  have hle : release.1 ≤ furthest (max since release.1) rest :=
    (le_max_right _ _).trans (le_furthest _ rest)
  have hfurthest : furthest since (release :: rest) = furthest (max since release.1) rest := rfl
  rw [takenIn, takenIn, hfurthest, accrued_split rate hle, List.map_cons, List.sum_cons]
  abel

@[simp]
theorem takenIn_nil (rate : M) (since : ℤ) : takenIn rate [] since = 0 := by
  simp [takenIn, accrued, furthest]

@[simp]
theorem takenIn_singleton (rate : M) (release : ℤ × M) (since : ℤ) :
    takenIn rate [release] since = release.2 + accrued rate since release.1 := by
  rw [takenIn_cons, takenIn_nil, add_zero]

variable [LinearOrder M]

/-- Consume the list until the remaining need is gone. `since` is the position
up to which the rate has been charged. -/
def firstCovering (rate : M) : List (ℤ × M) → M → ℤ → Option ℤ
  | [], _, _ => none
  | (position, amount) :: rest, need, since =>
      let remaining := need - amount - accrued rate since position
      if remaining ≤ 0 then some position
      else firstCovering rate rest remaining (max since position)

/-- The positions by which some listed position has been covered. -/
def covers (rate : M) (releases : List (ℤ × M)) (need : M) (since : ℤ) : Set ℤ :=
  { position | ∃ release ∈ releases, release.1 ≤ position ∧
      need ≤ released releases release.1 + accrued rate since release.1 }

theorem isUpperSet_covers (rate : M) (releases : List (ℤ × M)) (need : M) (since : ℤ) :
    IsUpperSet (covers rate releases need since) := by
  rintro first second hle ⟨release, hmem, hposition, hneed⟩
  exact ⟨release, hmem, hposition.trans hle, hneed⟩

/-- A smaller need is covered wherever a larger one is. -/
theorem covers_antitone {rate : M} {releases : List (ℤ × M)} {small large : M} {since : ℤ}
    (h : small ≤ large) :
    covers rate releases large since ⊆ covers rate releases small since := by
  rintro position ⟨release, hmem, hposition, hneed⟩
  exact ⟨release, hmem, hposition, h.trans hneed⟩

/-- A scan in the listed order stops at a position: with its release the need is
met, and no shorter part of the list meets it. -/
def StopsAt (rate : M) (releases : List (ℤ × M)) (need : M) (since position : ℤ) : Prop :=
  ∃ before amount after, releases = before ++ (position, amount) :: after ∧
    need ≤ takenIn rate (before ++ [(position, amount)]) since ∧
    ∀ shorter, shorter <+: before → shorter ≠ [] → ¬ need ≤ takenIn rate shorter since

/-- A scan stops where something is released. -/
theorem StopsAt.exists_mem {rate : M} {releases : List (ℤ × M)} {need : M} {since position : ℤ}
    (h : StopsAt rate releases need since position) : ∃ amount, (position, amount) ∈ releases := by
  obtain ⟨before, amount, after, rfl, -, -⟩ := h
  exact ⟨amount, List.mem_append_right _ List.mem_cons_self⟩

/-- The positions by which the scan in the listed order has stopped. -/
def stopped (rate : M) (releases : List (ℤ × M)) (need : M) (since : ℤ) : Set ℤ :=
  { position | ∃ stop ≤ position, StopsAt rate releases need since stop }

theorem isUpperSet_stopped (rate : M) (releases : List (ℤ × M)) (need : M) (since : ℤ) :
    IsUpperSet (stopped rate releases need since) := by
  rintro first second hle ⟨stop, hstop, hstopsAt⟩
  exact ⟨stop, hstop.trans hle, hstopsAt⟩

theorem exists_release_le_of_mem_stopped {rate : M} {releases : List (ℤ × M)} {need : M}
    {since position : ℤ} (h : position ∈ stopped rate releases need since) :
    ∃ release ∈ releases, release.1 ≤ position := by
  obtain ⟨stop, hle, hstops⟩ := h
  obtain ⟨amount, hmem⟩ := hstops.exists_mem
  exact ⟨(stop, amount), hmem, hle⟩

/-- A scan whose first release meets the need stops there. -/
theorem stopsAt_cons_of_le {rate : M} {release : ℤ × M} {rest : List (ℤ × M)} {need : M}
    {since position : ℤ} (hcovered : need ≤ takenIn rate [release] since) :
    StopsAt rate (release :: rest) need since position ↔ release.1 = position := by
  constructor
  · rintro ⟨before, last, after, hsplit, -, hshorter⟩
    cases before with
    | nil => exact congrArg Prod.fst (List.cons.inj hsplit).1
    | cons first before =>
        obtain ⟨rfl, -⟩ := List.cons.inj hsplit
        refine absurd hcovered (hshorter _ ?_ (List.cons_ne_nil release []))
        exact (List.prefix_cons_inj _).mpr List.nil_prefix
  · rintro rfl
    refine ⟨[], release.2, rest, rfl, hcovered, ?_⟩
    intro shorter hprefix hne
    exact absurd (List.prefix_nil.mp hprefix) hne

variable [IsOrderedAddMonoid M]

/-- A scan whose first release leaves a need goes on with what is left of it. -/
theorem stopsAt_cons_of_not_le {rate : M} {release : ℤ × M} {rest : List (ℤ × M)} {need : M}
    {since position : ℤ} (hopen : ¬ need ≤ takenIn rate [release] since) :
    StopsAt rate (release :: rest) need since position ↔
      StopsAt rate rest (need - release.2 - accrued rate since release.1) (max since release.1)
        position := by
  have hmove (taken : List (ℤ × M)) : need ≤ takenIn rate (release :: taken) since ↔
      need - release.2 - accrued rate since release.1 ≤
        takenIn rate taken (max since release.1) := by
    rw [takenIn_cons, sub_sub, sub_le_iff_le_add, add_comm]
  constructor
  · rintro ⟨before, last, after, hsplit, hneed, hshorter⟩
    cases before with
    | nil =>
        obtain ⟨rfl, -⟩ := List.cons.inj hsplit
        exact absurd hneed hopen
    | cons first before =>
        obtain ⟨rfl, hrest⟩ := List.cons.inj hsplit
        refine ⟨before, last, after, hrest, (hmove _).mp hneed, ?_⟩
        intro shorter hprefix hne
        rw [← hmove]
        exact hshorter _ ((List.prefix_cons_inj _).mpr hprefix) (List.cons_ne_nil _ _)
  · rintro ⟨before, last, after, rfl, hneed, hshorter⟩
    refine ⟨release :: before, last, after, rfl, (hmove _).mpr hneed, ?_⟩
    intro shorter hprefix hne
    obtain ⟨taken, rfl, htaken⟩ := (List.prefix_cons_iff.mp hprefix).resolve_left hne
    by_cases hnil : taken = []
    · subst hnil
      exact hopen
    · rw [hmove]
      exact hshorter taken htaken hnil

/-- The scan stops exactly where it finds a position, whatever the order of the
list. -/
theorem firstCovering_eq_some_iff {rate : M} {releases : List (ℤ × M)} {need : M}
    {since position : ℤ} :
    firstCovering rate releases need since = some position ↔
      StopsAt rate releases need since position := by
  induction releases generalizing need since with
  | nil => simp [firstCovering, StopsAt]
  | cons release rest ih =>
      have hfirst : need - release.2 - accrued rate since release.1 ≤ 0 ↔
          need ≤ takenIn rate [release] since := by
        rw [takenIn_singleton, sub_sub, sub_nonpos]
      rw [firstCovering]
      split
      case isTrue hcovered =>
        rw [Option.some_inj, stopsAt_cons_of_le (hfirst.mp hcovered)]
      case isFalse hopen =>
        rw [ih, stopsAt_cons_of_not_le (mt hfirst.mpr hopen)]

/-- Past a head that leaves a need, the list covers what its rest covers of what
is left: what the head has contributed moves from the total to the need. -/
theorem covers_cons_of_not_le {rate : M} {release : ℤ × M} {rest : List (ℤ × M)} {need : M}
    {since : ℤ} (hhead : ∀ other ∈ rest, release.1 < other.1)
    (hopen : ¬ need ≤ released (release :: rest) release.1 + accrued rate since release.1) :
    covers rate (release :: rest) need since =
      covers rate rest (need - release.2 - accrued rate since release.1)
        (max since release.1) := by
  have hmove (other : ℤ × M) (hmem : other ∈ rest) :
      need ≤ released (release :: rest) other.1 + accrued rate since other.1 ↔
        need - release.2 - accrued rate since release.1 ≤
          released rest other.1 + accrued rate (max since release.1) other.1 := by
    have hle := (hhead other hmem).le
    rw [released_cons_of_le hle, accrued_split rate hle, sub_sub, sub_le_iff_le_add]
    constructor <;> intro h <;> refine h.trans (le_of_eq ?_) <;> abel
  ext position
  constructor
  · rintro ⟨other, hmem, hle, hneed⟩
    rcases List.mem_cons.mp hmem with rfl | hmem
    · exact absurd hneed hopen
    · exact ⟨other, hmem, hle, (hmove other hmem).mp hneed⟩
  · rintro ⟨other, hmem, hle, hneed⟩
    exact ⟨other, List.mem_cons_of_mem _ hmem, hle, (hmove other hmem).mpr hneed⟩

/-- **The scan finds the least covered position.** The list is ascending; the
induction is on it, with the remaining need and the charged position varying. -/
theorem picks_firstCovering (rate : M) {releases : List (ℤ × M)}
    (hascending : releases.Pairwise fun first second => first.1 < second.1)
    (need : M) (since : ℤ) :
    Picks (firstCovering rate releases need since) (covers rate releases need since) := by
  induction releases generalizing need since with
  | nil => simp [firstCovering, covers]
  | cons release rest ih =>
      obtain ⟨hhead, hrest⟩ := List.pairwise_cons.mp hascending
      have hfirst : need - release.2 - accrued rate since release.1 ≤ 0 ↔
          need ≤ released (release :: rest) release.1 + accrued rate since release.1 := by
        rw [released_cons_of_le le_rfl, released_eq_zero hhead, add_zero, sub_sub, sub_nonpos]
      rw [firstCovering]
      split
      case isTrue hcovered =>
        refine ⟨⟨_, List.mem_cons_self, le_rfl, hfirst.mp hcovered⟩, ?_⟩
        rintro position ⟨other, hmem, hle, -⟩
        rcases List.mem_cons.mp hmem with rfl | hmem
        · exact hle
        · exact (hhead other hmem).le.trans hle
      case isFalse hopen =>
        rw [covers_cons_of_not_le hhead (mt hfirst.mpr hopen)]
        exact ih hrest _ _

/-- In any order, the scan offers the least position by which it has stopped. -/
theorem picks_stopped (rate : M) (releases : List (ℤ × M)) (need : M) (since : ℤ) :
    Picks (firstCovering rate releases need since) (stopped rate releases need since) := by
  cases hscan : firstCovering rate releases need since with
  | none =>
      apply Set.eq_empty_iff_forall_notMem.mpr
      rintro position ⟨stop, -, hstopsAt⟩
      rw [← firstCovering_eq_some_iff, hscan] at hstopsAt
      cases hstopsAt
  | some position =>
      refine ⟨⟨position, le_rfl, firstCovering_eq_some_iff.mp hscan⟩, ?_⟩
      rintro other ⟨stop, hle, hstopsAt⟩
      rw [← firstCovering_eq_some_iff, hscan] at hstopsAt
      exact (Option.some.inj hstopsAt).le.trans hle

/-- On an ascending list, to have stopped is to have been covered. -/
theorem stopped_eq_covers (rate : M) {releases : List (ℤ × M)}
    (hascending : releases.Pairwise fun first second => first.1 < second.1)
    (need : M) (since : ℤ) :
    stopped rate releases need since = covers rate releases need since :=
  (picks_stopped rate releases need since).eq_of_isUpperSet
    (picks_firstCovering rate hascending need since)
    (isUpperSet_stopped rate releases need since) (isUpperSet_covers rate releases need since)

/-! ## Larger releases -/

/-- Of two lists with the same positions, the one whose amounts are not smaller
has not released less. -/
theorem released_le_of_forall₂ {small large : List (ℤ × M)}
    (h : List.Forall₂ (fun first second => first.1 = second.1 ∧ first.2 ≤ second.2) small large)
    (position : ℤ) : released small position ≤ released large position := by
  have hskip {release : ℤ × M} {rest : List (ℤ × M)} (hlater : ¬ release.1 ≤ position) :
      released (release :: rest) position = released rest position := by
    simp [released, hlater]
  induction h with
  | nil => exact le_rfl
  | @cons first second _ _ hhead _ ih =>
      obtain ⟨hposition, hamount⟩ := hhead
      by_cases hle : first.1 ≤ position
      · rw [released_cons_of_le hle, released_cons_of_le (hposition ▸ hle)]
        exact add_le_add hamount ih
      · rw [hskip hle, hskip (hposition ▸ hle)]
        exact ih

/-- What small releases cover at a low rate, larger ones at the same positions
cover at a higher rate. -/
theorem covers_subset_of_forall₂ {low high : M} {small large : List (ℤ × M)} {need : M}
    {since : ℤ} (hrate : low ≤ high)
    (h : List.Forall₂ (fun first second => first.1 = second.1 ∧ first.2 ≤ second.2)
      small large) :
    covers low small need since ⊆ covers high large need since := by
  have hpositions : small.map Prod.fst = large.map Prod.fst := by
    induction h with
    | nil => rfl
    | cons hhead _ ih => rw [List.map_cons, List.map_cons, hhead.1, ih]
  rintro position ⟨release, hmem, hposition, hneed⟩
  have hlisted : release.1 ∈ large.map Prod.fst := hpositions ▸ List.mem_map_of_mem hmem
  obtain ⟨matched, hmatched, heq⟩ := List.mem_map.mp hlisted
  refine ⟨matched, hmatched, heq ▸ hposition, ?_⟩
  rw [heq]
  exact hneed.trans (add_le_add (released_le_of_forall₂ h release.1)
    (zsmul_le_zsmul_right (le_max_left _ _) hrate))

/-! ## A later start -/

/-- What accrues from a later start on is not more. -/
theorem accrued_antitone {rate : M} (hrate : 0 ≤ rate) {earlier later : ℤ} (h : earlier ≤ later)
    (position : ℤ) : accrued rate later position ≤ accrued rate earlier position := by
  have hspan : max 0 (position - later) ≤ max 0 (position - earlier) := by omega
  exact zsmul_le_zsmul_left hrate hspan

/-- What is covered from a later start on is covered from an earlier one. -/
theorem covers_antitone_since {rate : M} (hrate : 0 ≤ rate) {releases : List (ℤ × M)} {need : M}
    {earlier later : ℤ} (h : earlier ≤ later) :
    covers rate releases need later ⊆ covers rate releases need earlier := by
  rintro position ⟨release, hmem, hposition, hneed⟩
  have haccrued := accrued_antitone hrate h release.1
  exact ⟨release, hmem, hposition, hneed.trans (add_le_add le_rfl haccrued)⟩

end Releases

end WithdrawalsApi.Math
