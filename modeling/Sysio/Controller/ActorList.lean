import Sysio.Types
import Sysio.Data.FlatSet
import Sysio.Data.OrderedList

/-!
# Actor lists

`check_actor_list` compares two flat sets without a set operation: it first compares their extents,
then walks the actors in order, and for each of them looks for the lower bound in what is left of
the list.  As both lists ascend, the walk over the whitelist finds whether every actor is listed
(`isSubset_eq_true`), the walk over the blacklist whether some actor is (`intersects_eq_true`), and
the extents never decide otherwise.
-/

namespace Sysio

open Result List

section Walk

variable {α : Type} [LinearOrder α]

/-- `std::lower_bound`: what is left of an ascending range from the first element not less. -/
def lowerBound (range : List α) (a : α) : List α := range.dropWhile fun x => decide (x < a)

/-- The loop over the whitelist. -/
def isSubset : List α → List α → Bool
  | _, [] => true
  | range, actor :: actors =>
    match lowerBound range actor with
    | [] => false
    -- if the actor was found, the search for the next one starts behind it
    | x :: rest => if x ≠ actor then false else isSubset rest actors

/-- The loop over the blacklist. -/
def intersects : List α → List α → Bool
  | _, [] => false
  | range, actor :: actors =>
    match lowerBound range actor with
    | [] => false
    | x :: rest => if x = actor then true else intersects (x :: rest) actors

/-- A comparison of two ends, of lists that have both. -/
def extents (lower upper : Option α) : Bool := decide (∀ a ∈ lower, ∀ b ∈ upper, a ≤ b)

variable {range actors rest : List α} {a x : α}

section

variable (hr : range.Pairwise (· < ·))
include hr

lemma mem_lowerBound : x ∈ lowerBound range a ↔ x ∈ range ∧ a ≤ x := by
  have hmono : range.Pairwise fun x y => decide (y < a) = true → decide (x < a) = true :=
    hr.imp fun hxy hy => decide_eq_true (hxy.trans (of_decide_eq_true hy))
  rw [lowerBound, (mem_takeWhile_dropWhile hmono x).2, decide_eq_true_eq, not_lt]

/-- The element is in the range when it is the first one of what the search leaves. -/
lemma lowerBound_eq_cons (h : lowerBound range a = x :: rest) :
    (x :: rest).Pairwise (· < ·) ∧ (a ∈ range ↔ x = a) := by
  have hx : x ∈ range ∧ a ≤ x := (mem_lowerBound hr).mp (h ▸ mem_cons_self)
  have hsorted : (x :: rest).Pairwise (· < ·) := h ▸ hr.sublist (dropWhile_sublist _)
  refine ⟨hsorted, ?_, ?_⟩
  · intro ha
    have hmem : a ∈ x :: rest := h ▸ (mem_lowerBound hr).mpr ⟨ha, le_rfl⟩
    rcases mem_cons.mp hmem with heq | hrest
    · exact heq.symm
    · exact absurd ((pairwise_cons.mp hsorted).1 a hrest) (not_lt.mpr hx.2)
  · rintro rfl
    exact hx.1

lemma not_mem_of_lowerBound_eq_nil (h : lowerBound range a = []) : ∀ b, a ≤ b → b ∉ range :=
  fun _ hab hb => not_mem_nil (h ▸ (mem_lowerBound hr).mpr ⟨hb, hab⟩)

/-- What lies above an element is looked for in what the search for that element leaves. -/
lemma mem_lowerBound_iff (hax : a < x) : x ∈ lowerBound range a ↔ x ∈ range := by
  rw [mem_lowerBound hr, and_iff_left hax.le]

lemma isSubset_eq_true (ha : actors.Pairwise (· < ·)) :
    isSubset range actors = true ↔ ∀ a ∈ actors, a ∈ range := by
  induction actors generalizing range with
  | nil => simp [isSubset]
  | cons actor actors ih =>
    obtain ⟨hlt, hactors⟩ := pairwise_cons.mp ha
    rw [isSubset, forall_mem_cons]
    cases hlb : lowerBound range actor with
    | nil => simp [not_mem_of_lowerBound_eq_nil hr hlb actor le_rfl]
    | cons x rest =>
      obtain ⟨hsorted, hiff⟩ := lowerBound_eq_cons hr hlb
      rw [hiff]
      dsimp only
      split_ifs with hx
      · simp [hx]
      · obtain rfl : x = actor := not_not.mp hx
        rw [ih (pairwise_cons.mp hsorted).2 hactors, eq_self_iff_true, true_and]
        refine forall₂_congr fun a hmem => ?_
        rw [← mem_lowerBound_iff hr (hlt a hmem), hlb, mem_cons, or_iff_right (hlt a hmem).ne']

lemma intersects_eq_true (ha : actors.Pairwise (· < ·)) :
    intersects range actors = true ↔ ∃ a ∈ actors, a ∈ range := by
  induction actors generalizing range with
  | nil => simp [intersects]
  | cons actor actors ih =>
    obtain ⟨hlt, hactors⟩ := pairwise_cons.mp ha
    rw [intersects]
    simp only [mem_cons, or_and_right, exists_or, exists_eq_left]
    cases hlb : lowerBound range actor with
    | nil =>
      have hnone := not_mem_of_lowerBound_eq_nil hr hlb
      simp only [Bool.false_eq_true, false_iff, not_or, not_exists, not_and]
      exact ⟨hnone actor le_rfl, fun a hmem => hnone a (hlt a hmem).le⟩
    | cons =>
      obtain ⟨hsorted, hiff⟩ := lowerBound_eq_cons hr hlb
      rw [hiff]
      dsimp only
      split_ifs with hx
      · simp [hx]
      · rw [ih hsorted hactors, or_iff_right hx]
        refine exists_congr fun a => and_congr_right fun hmem => ?_
        rw [← hlb, mem_lowerBound_iff hr (hlt a hmem)]

lemma head?_le (ha : a ∈ range.head?) (hx : x ∈ range) : a ≤ x := by
  obtain ⟨rest, rfl⟩ := head?_eq_some_iff.mp ha
  rcases mem_cons.mp hx with rfl | hx
  · exact le_rfl
  · exact ((pairwise_cons.mp hr).1 x hx).le

lemma le_getLast? (ha : a ∈ range.getLast?) (hx : x ∈ range) : x ≤ a := by
  obtain ⟨init, rfl⟩ := getLast?_eq_some_iff.mp ha
  rcases mem_append.mp hx with hx | hx
  · exact ((pairwise_append.mp hr).2.2 x hx a mem_cons_self).le
  · exact (mem_singleton.mp hx).le

end

end Walk

/-- The options of `controller::config` that `check_actor_list` reads. -/
structure ActorLists where
  actorWhitelist : FlatSet Name
  actorBlacklist : FlatSet Name

namespace ActorLists

/-- The quick extents check and the loop over the whitelist. -/
def listsAll (whitelist actors : FlatSet Name) : Bool :=
  (extents whitelist.toList.head? actors.toList.head? &&
    extents actors.toList.getLast? whitelist.toList.getLast?) &&
    isSubset whitelist.toList actors.toList

/-- The quick extents check and the loop over the blacklist. -/
def listsSome (blacklist actors : FlatSet Name) : Bool :=
  (extents actors.toList.head? blacklist.toList.getLast? &&
    extents blacklist.toList.head? actors.toList.getLast?) &&
    intersects blacklist.toList actors.toList

def checkActorList (conf : ActorLists) (actors : FlatSet Name) : Result Unit :=
  if actors.toList.length = 0 then pure ()
  else if conf.actorWhitelist.toList.length > 0 then
    sysAssert (listsAll conf.actorWhitelist actors) .actorWhitelistException
      "authorizing actor(s) in transaction are not on the actor whitelist: "
  else if conf.actorBlacklist.toList.length > 0 then
    sysAssert (¬ listsSome conf.actorBlacklist actors) .actorBlacklistException
      "authorizing actor(s) in transaction are on the actor blacklist: "
  else pure ()

variable {list actors : FlatSet Name}

/-- The extents of a subset are within those of the set. -/
lemma listsAll_eq_true : listsAll list actors = true ↔ ∀ a ∈ actors, a ∈ list := by
  rw [listsAll, Bool.and_eq_true, isSubset_eq_true list.sorted actors.sorted]
  refine and_iff_right_of_imp fun h => ?_
  rw [Bool.and_eq_true, extents, extents, decide_eq_true_eq, decide_eq_true_eq]
  exact ⟨fun a ha b hb => head?_le list.sorted ha (h b (mem_of_mem_head? hb)),
    fun a ha b hb => le_getLast? list.sorted hb (h a (mem_of_mem_getLast? ha))⟩

/-- The extents of two sets with a common element overlap. -/
lemma listsSome_eq_true : listsSome list actors = true ↔ ∃ a ∈ actors, a ∈ list := by
  rw [listsSome, Bool.and_eq_true, intersects_eq_true list.sorted actors.sorted]
  refine and_iff_right_of_imp fun ⟨x, hx, hlist⟩ => ?_
  rw [Bool.and_eq_true, extents, extents, decide_eq_true_eq, decide_eq_true_eq]
  exact ⟨fun a ha b hb => (head?_le actors.sorted ha hx).trans (le_getLast? list.sorted hb hlist),
    fun a ha b hb => (head?_le list.sorted ha hlist).trans (le_getLast? actors.sorted hb hx)⟩

/-- **The actor list check is its set definition**: it throws exactly when there is a whitelist and
some actor is not on it, or there is only a blacklist and some actor is on it. -/
theorem checkActorList_throws_iff (conf : ActorLists) (actors : FlatSet Name) :
    (∃ e, conf.checkActorList actors = .error e) ↔
      (conf.actorWhitelist.toList ≠ [] ∧ ∃ a ∈ actors, a ∉ conf.actorWhitelist) ∨
      (conf.actorWhitelist.toList = [] ∧ conf.actorBlacklist.toList ≠ [] ∧
        ∃ a ∈ actors, a ∈ conf.actorBlacklist) := by
  have hthrows : ∀ (p : Prop) [Decidable p] (type : ExceptionType) (what : String),
      (∃ e, sysAssert p type what = .error e) ↔ ¬ p := by
    intro p _ type what
    unfold sysAssert
    split_ifs with hp <;> simp [hp]
  have hpure : ¬ ∃ e, (pure () : Result Unit) = .error e := nofun
  unfold checkActorList
  simp only [length_eq_zero_iff, gt_iff_lt, length_pos_iff]
  split_ifs with hempty hwhite hblack
  · have hnone : ∀ a, a ∉ actors := fun a ha => not_mem_nil (hempty ▸ FlatSet.mem_iff.mp ha)
    simp [hpure, hnone]
  · rw [hthrows, listsAll_eq_true]
    simp [hwhite]
  · rw [hthrows, not_not, listsSome_eq_true]
    simp [hblack, not_not.mp hwhite]
  · simp [hpure, not_not.mp hwhite, not_not.mp hblack]

end ActorLists

end Sysio
