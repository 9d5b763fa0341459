import Mathlib.Data.List.Nodup
import Sysio.Types

/-!
# The neighbours of a producer in the schedule

A producing node connects to the producers up to two places before and after its own in the
schedule.  The place is found by adding the distance to a `size_t` and taking the remainder by the
size of the schedule.  A negative distance wraps at `2 ^ 64` first, so in front of the first place
the remainder is right only if the size divides `2 ^ 64`, or if the schedule is so short that
everyone is a neighbour anyway.  Only own producers at the first two places get that far
(`neighbors_exact`).
-/

namespace Sysio

open List

variable {distances : List ℤ}

/-- `neighbor_finder_type`, with the names in the schedule and the two sets of the configuration. -/
structure NeighborFinder where
  schedule : List Name
  myBpAccounts : List Name
  /-- The accounts with an address in `bp_peer_addresses`. -/
  bpPeerAddresses : List Name

namespace NeighborFinder

variable (f : NeighborFinder)

def myScheduleIndices : List ℕ :=
  f.myBpAccounts.filterMap fun account => f.schedule.findIdx? (· == account)

/-- `(schedule_index + distance) % schedule.size()`, in `size_t`. -/
def position (size scheduleIndex : ℕ) (distance : ℤ) : ℕ :=
  ((scheduleIndex + distance) % 2 ^ 64).toNat % size

/-- The names that `add_neighbors_with_distance` inserts. -/
def neighborsWithDistance (distance : ℤ) : List Name :=
  f.myScheduleIndices.filterMap fun scheduleIndex =>
    let i := position f.schedule.length scheduleIndex distance
    if i ∈ f.myScheduleIndices then none
    else f.schedule[i]?.filter fun name => decide (name ∈ f.bpPeerAddresses)

def proximityCount : ℕ := 2

def downstreamNeighbors : List Name :=
  (range proximityCount).flatMap fun i => f.neighborsWithDistance (i + 1)

def neighbors : List Name :=
  f.downstreamNeighbors ++ (range proximityCount).flatMap fun i => f.neighborsWithDistance (-1 - i)

/-- Who should be found: a producer with an address that is none of the own ones, at one of the
distances from an own one, modulo the size of the schedule. -/
def Neighbor (distances : List ℤ) (name : Name) : Prop :=
  name ∈ f.bpPeerAddresses ∧ name ∉ f.myBpAccounts ∧ ∃ i j : ℕ, ∃ own ∈ f.myBpAccounts,
    f.schedule[i]? = some own ∧ f.schedule[j]? = some name ∧
    ∃ d ∈ distances, (j : ℤ) = (i + d) % f.schedule.length

variable {f} {name : Name} {d : ℤ} {n i j : ℕ}

lemma mem_myScheduleIndices (h : f.schedule.Nodup) :
    i ∈ f.myScheduleIndices ↔ ∃ own ∈ f.myBpAccounts, f.schedule[i]? = some own := by
  have hfind : ∀ a, f.schedule.findIdx? (· == a) = some i ↔ f.schedule[i]? = some a := by
    intro a
    rw [findIdx?_eq_some_iff_getElem, List.getElem?_eq_some_iff]
    refine exists_congr fun hi => ?_
    rw [beq_iff_eq, and_iff_left_iff_imp]
    rintro rfl j hj heq
    exact hj.ne (h.getElem_inj_iff.mp (beq_iff_eq.mp heq))
  simp only [myScheduleIndices, mem_filterMap, hfind]

/-- What the loops find, for any distances. -/
lemma mem_flatMap_neighbors (h : f.schedule.Nodup) :
    name ∈ distances.flatMap f.neighborsWithDistance ↔
      name ∈ f.bpPeerAddresses ∧ name ∉ f.myBpAccounts ∧ ∃ i j : ℕ, ∃ own ∈ f.myBpAccounts,
        f.schedule[i]? = some own ∧ f.schedule[j]? = some name ∧
        ∃ d ∈ distances, j = position f.schedule.length i d := by
  simp only [mem_flatMap, neighborsWithDistance, mem_filterMap, mem_myScheduleIndices h,
    Option.ite_none_left_eq_some, Option.filter_eq_some_iff, decide_eq_true_eq]
  constructor
  · rintro ⟨d, hd, i, ⟨own, hown, hi⟩, hnot, hname, hpeer⟩
    exact ⟨hpeer, fun hmy => hnot ⟨name, hmy, hname⟩, i, _, own, hown, hi, hname, d, hd, rfl⟩
  · rintro ⟨hpeer, hmy, i, _, own, hown, hi, hname, d, hd, rfl⟩
    refine ⟨d, hd, i, ⟨own, hown, hi⟩, ?_, hname, hpeer⟩
    rintro ⟨a, ha, heq⟩
    exact hmy (Option.some.inj (hname.symm.trans heq) ▸ ha)

lemma position_eq (size scheduleIndex : ℕ) (distance : ℤ) :
    (position size scheduleIndex distance : ℤ) = (scheduleIndex + distance) % 2 ^ 64 % size := by
  rw [position, Int.natCast_mod, Int.toNat_of_nonneg (Int.emod_nonneg _ (by decide))]

/-- The loops find the neighbours if the places next to the own ones are right. -/
lemma mem_iff_neighbor (h : f.schedule.Nodup)
    (hpos : ∀ i : ℕ, ∀ own ∈ f.myBpAccounts, f.schedule[i]? = some own → ∀ d ∈ distances,
      ((i : ℤ) + d) % 2 ^ 64 % f.schedule.length = (i + d) % f.schedule.length) :
    name ∈ distances.flatMap f.neighborsWithDistance ↔ f.Neighbor distances name := by
  rw [mem_flatMap_neighbors h]
  refine and_congr_right fun _ => and_congr_right fun _ => exists_congr fun i =>
    exists_congr fun j => exists_congr fun own => and_congr_right fun hown => ?_
  refine and_congr_right fun hi => and_congr_right fun _ => exists_congr fun d =>
    and_congr_right fun hd => ?_
  rw [← hpos i own hown hi d hd, ← position_eq, Nat.cast_inj]

lemma downstreamNeighbors_eq :
    f.downstreamNeighbors = [1, 2].flatMap f.neighborsWithDistance := rfl

lemma neighbors_eq : f.neighbors = [1, 2, -1, -2].flatMap f.neighborsWithDistance := by
  rw [neighbors, downstreamNeighbors_eq,
    show ([1, 2, -1, -2] : List ℤ) = [1, 2] ++ [-1, -2] from rfl, flatMap_append]
  rfl

/-- If a wrapped distance leads to both places before the first one, the size divides. -/
lemma dvd_of_places {size : ℕ} (hn : 4 < n)
    (h : ∀ k, k = 1 ∨ k = 2 → n - k = 1 ∨ n - k = 2 ∨ n - k = (size - 1) % n ∨
      n - k = (size - 2) % n) : n ∣ size := by
  by_contra hdvd
  have hne : size % n ≠ 0 := fun hzero => hdvd (Nat.dvd_of_mod_eq_zero hzero)
  have hlt := Nat.mod_lt size (show 0 < n by omega)
  have hsub : ∀ k ≤ size % n, (size - k) % n = size % n - k := by
    intro k hk
    have hdiv := Nat.div_add_mod size n
    rw [show size - k = n * (size / n) + (size % n - k) by omega, Nat.mul_add_mod,
      Nat.mod_eq_of_lt (by omega)]
  have hone := hsub 1 (by omega)
  have h1 := h 1 (.inl rfl)
  have h2 := h 2 (.inr rfl)
  by_cases htwo : 2 ≤ size % n
  · have := hsub 2 htwo
    omega
  · omega

section

variable {schedule my peers : List Name} (hnodup : schedule.Nodup)
  (hsize : schedule.length < 2 ^ 63)
include hnodup hsize

lemma mem_downstreamNeighbors : name ∈ downstreamNeighbors ⟨schedule, my, peers⟩ ↔
    Neighbor ⟨schedule, my, peers⟩ [1, 2] name := by
  rw [downstreamNeighbors_eq]
  refine mem_iff_neighbor hnodup fun i _ _ hi d hd => ?_
  have hi : i < schedule.length := (List.getElem?_eq_some_iff.mp hi).1
  have hd : d = 1 ∨ d = 2 := by simpa using hd
  rw [Int.emod_eq_of_lt (a := i + d)] <;> omega

/-- Without a wrap, everyone among three is found. -/
lemma mem_neighbors_of_three (hlen : schedule.length = 3) :
    name ∈ neighbors ⟨schedule, my, peers⟩ ↔
      Neighbor ⟨schedule, my, peers⟩ [1, 2, -1, -2] name := by
  have hnear : name ∉ my → ∀ i j : ℕ, ∀ own ∈ my, schedule[i]? = some own →
      schedule[j]? = some name →
        ∃ d ∈ ([1, 2] : List ℤ), (j : ℤ) = (i + d) % schedule.length := by
    intro hmy i j own hown hi hj
    have hij : i ≠ j := by
      rintro rfl
      exact hmy (Option.some.inj (hi.symm.trans hj) ▸ hown)
    have hi := (List.getElem?_eq_some_iff.mp hi).1
    have hj := (List.getElem?_eq_some_iff.mp hj).1
    simp only [mem_cons, not_mem_nil, or_false, exists_eq_or_imp, exists_eq_left]
    rw [hlen] at hi hj ⊢
    omega
  constructor
  · intro hmem
    rw [neighbors_eq] at hmem
    obtain ⟨hpeer, hmy, i, j, own, hown, hi, hj, -⟩ := (mem_flatMap_neighbors hnodup).mp hmem
    obtain ⟨d, hd, heq⟩ := hnear hmy i j own hown hi hj
    exact ⟨hpeer, hmy, i, j, own, hown, hi, hj, d, mem_append_left _ hd, heq⟩
  · rintro ⟨hpeer, hmy, i, j, own, hown, hi, hj, -⟩
    exact mem_append_left _ ((mem_downstreamNeighbors hnodup hsize).mpr
      ⟨hpeer, hmy, i, j, own, hown, hi, hj, hnear hmy i j own hown hi hj⟩)

/-- The sizes up to four other than three divide `2 ^ 64`. -/
lemma mem_neighbors_of_small (hlen : schedule.length ≤ 4) (hdvd : ¬ schedule.length ∣ 2 ^ 64) :
    name ∈ neighbors ⟨schedule, my, peers⟩ ↔
      Neighbor ⟨schedule, my, peers⟩ [1, 2, -1, -2] name := by
  have hne : ∀ k ∈ [1, 2, 4], schedule.length ≠ k := fun k hk heq =>
    hdvd (heq ▸ (by decide : ∀ k ∈ [1, 2, 4], k ∣ 2 ^ 64) k hk)
  simp only [mem_cons, not_mem_nil, or_false, forall_eq_or_imp, forall_eq] at hne
  rcases Nat.eq_zero_or_pos schedule.length with hzero | hpos
  · obtain rfl := length_eq_zero_iff.mp hzero
    rw [neighbors_eq]
    exact mem_iff_neighbor hnodup fun _ _ _ hi => nomatch hi
  · exact mem_neighbors_of_three hnodup hsize (by omega)

/-- From the third place on nothing wraps. -/
lemma mem_neighbors_of_third (hplaces : ∀ own ∈ my, own ∉ schedule.take 2) :
    name ∈ neighbors ⟨schedule, my, peers⟩ ↔
      Neighbor ⟨schedule, my, peers⟩ [1, 2, -1, -2] name := by
  rw [neighbors_eq]
  refine mem_iff_neighbor hnodup fun i own hown hi d hd => ?_
  have hi : schedule[i]? = some own := hi
  have htwo : 2 ≤ i := by
    by_contra hlt
    exact hplaces own hown (mem_of_getElem? ((getElem?_take_of_lt (by omega)).trans hi))
  have hlt : i < schedule.length := (List.getElem?_eq_some_iff.mp hi).1
  have hd : d = 1 ∨ d = 2 ∨ d = -1 ∨ d = -2 := by simpa using hd
  rw [Int.emod_eq_of_lt (a := i + d)] <;> omega

omit hsize in
/-- Let the first producer be the own one, and all have addresses. -/
lemma dvd_of_exact (hlen : 4 < schedule.length)
    (h : ∀ my peers name, name ∈ neighbors ⟨schedule, my, peers⟩ ↔
      Neighbor ⟨schedule, my, peers⟩ [1, 2, -1, -2] name) : schedule.length ∣ 2 ^ 64 := by
  refine dvd_of_places hlen fun k hk => ?_
  have hj : schedule.length - k < schedule.length := by omega
  have h0 : schedule[0]? = some schedule[0] := List.getElem?_eq_getElem (by omega)
  have hplace := List.getElem?_eq_getElem hj
  have hname := (h [schedule[0]] schedule _).mpr ⟨getElem_mem hj, fun hmem => ?_, 0, _, _,
    mem_singleton_self _, h0, hplace, -k, by rcases hk with rfl | rfl <;> simp, ?_⟩
  · rw [neighbors_eq, mem_flatMap_neighbors hnodup] at hname
    obtain ⟨-, -, i, j, own, hown, hi, hj', d, hd, hpos⟩ := hname
    obtain rfl := mem_singleton.mp hown
    obtain rfl := (List.getElem?_inj (by omega) hnodup).mp (h0.trans hi.symm)
    obtain rfl := (List.getElem?_inj hj hnodup).mp (hplace.trans hj'.symm)
    simp only [mem_cons, not_mem_nil, or_false] at hd
    rw [hpos]
    rcases hd with rfl | rfl | rfl | rfl
    · exact .inl (Nat.mod_eq_of_lt (show 1 < schedule.length by omega))
    · exact .inr (.inl (Nat.mod_eq_of_lt (show 2 < schedule.length by omega)))
    · exact .inr (.inr (.inl rfl))
    · exact .inr (.inr (.inr rfl))
  · have := hnodup.getElem_inj_iff.mp (mem_singleton.mp hmem)
    omega
  · rw [← Int.add_emod_right, Int.emod_eq_of_lt] <;> dsimp only <;> omega

end

/-- **The neighbours that are found are the true ones** in the forward direction.  In both
directions they are, for schedules of up to four producers, for those whose size divides `2 ^ 64`,
and where none of the first two producers is an own one.  No other size is right for all own
accounts and addresses. -/
theorem neighbors_exact (schedule : List Name) (hnodup : schedule.Nodup)
    (hsize : schedule.length < 2 ^ 63) :
    (∀ my peers name, name ∈ downstreamNeighbors ⟨schedule, my, peers⟩ ↔
      Neighbor ⟨schedule, my, peers⟩ [1, 2] name) ∧
    (∀ my peers : List Name, schedule.length ≤ 4 ∨ schedule.length ∣ 2 ^ 64 ∨
        (∀ own ∈ my, own ∉ schedule.take 2) →
      ∀ name, name ∈ neighbors ⟨schedule, my, peers⟩ ↔
        Neighbor ⟨schedule, my, peers⟩ [1, 2, -1, -2] name) ∧
    ((∀ my peers name, name ∈ neighbors ⟨schedule, my, peers⟩ ↔
        Neighbor ⟨schedule, my, peers⟩ [1, 2, -1, -2] name) →
      schedule.length ≤ 4 ∨ schedule.length ∣ 2 ^ 64) := by
  refine ⟨fun _ _ _ => mem_downstreamNeighbors hnodup hsize, fun my peers hwhen name => ?_,
    fun h => ?_⟩
  · by_cases hdvd : schedule.length ∣ 2 ^ 64
    · rw [neighbors_eq]
      exact mem_iff_neighbor hnodup fun _ _ _ _ _ _ =>
        Int.emod_emod_of_dvd _ (by exact_mod_cast hdvd)
    rcases hwhen with hlen | hdvd' | hplaces
    · exact mem_neighbors_of_small hnodup hsize hlen hdvd
    · exact absurd hdvd' hdvd
    · exact mem_neighbors_of_third hnodup hsize hplaces
  · rcases Nat.lt_or_ge 4 schedule.length with hlen | hlen
    · exact .inr (dvd_of_exact hnodup hlen h)
    · exact .inl hlen

/-- The producers 0 to 20. -/
def demoSchedule : List Name := (range 21).map (⟨UInt64.ofNat ·⟩)

/-- Of 21 producers the node is number 2, and finds the first one two places before it. -/
theorem neighbors_exact_third :
    (∀ own ∈ ([⟨2⟩] : List Name), own ∉ demoSchedule.take 2) ∧
      ⟨0⟩ ∈ neighbors ⟨demoSchedule, [⟨2⟩], demoSchedule⟩ := by
  have hthird : ∀ own ∈ ([⟨2⟩] : List Name), own ∉ demoSchedule.take 2 := by decide
  refine ⟨hthird, ((neighbors_exact demoSchedule (by decide) (by decide)).2.1 _ _
    (.inr (.inr hthird)) _).mpr ?_⟩
  exact ⟨by decide, by decide, 2, 0, ⟨2⟩, by decide, by decide, by decide, -2, by decide, by decide⟩

/-- **A neighbour is missed**: of the producers 0 to 4 the node is 0, and 3, two places before it,
is not found. -/
theorem exists_neighbor_missed :
    let f : NeighborFinder := ⟨(range 5).map (⟨UInt64.ofNat ·⟩), [⟨0⟩], [⟨3⟩]⟩
    f.Neighbor [1, 2, -1, -2] ⟨3⟩ ∧ f.neighbors = [] := by
  refine ⟨⟨by decide, by decide, 0, 3, ⟨0⟩, by decide, by decide, by decide, -2, by decide, ?_⟩, ?_⟩
  all_goals decide +kernel

end NeighborFinder

end Sysio
