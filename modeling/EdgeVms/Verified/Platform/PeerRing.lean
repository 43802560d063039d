import EdgeVms.Platform.Resource
import EdgeVms.Process.Ring
import Mathlib.Data.String.Basic

/-! # Who mirrors to whom

Nobody assigns the peers: every server takes the next ones in the ring of the live
names.  That is fair, since on the way to a server each gap occurs once.
-/

namespace EdgeVms.Verified.PeerRing

open Process Python Platform Resource

/-! ## Sorted names -/

theorem sorted_names (names : List String) (distinct : names.Nodup) : (sorted names).Pairwise (· < ·) := by
  have ordered : (sorted names).Pairwise (· ≤ ·) := List.pairwise_insertionSort (· ≤ ·) names
  have different : (sorted names).Nodup := (List.perm_insertionSort (· ≤ ·) names).nodup_iff.mpr distinct
  exact (ordered.and different).imp fun both => lt_of_le_of_ne both.1 both.2

/-- In increasing order, the place of a name is the number of the smaller ones. -/
theorem idxOf_eq_smaller {names : List String} (ordered : names.Pairwise (· < ·)) {name : String}
    (listed : name ∈ names) : names.idxOf name = (names.filter (· < name)).length := by
  induction names with
  | nil => cases listed
  | cons first rest ih =>
    obtain ⟨least, ordered⟩ := List.pairwise_cons.mp ordered
    obtain rfl | later := List.mem_cons.mp listed
    · have none_ : (name :: rest).filter (· < name) = [] := by
        rw [List.filter_eq_nil_iff]
        intro other inside below
        obtain rfl | inside := List.mem_cons.mp inside
        · exact lt_irrefl _ (of_decide_eq_true below)
        · exact lt_asymm (least other inside) (of_decide_eq_true below)
      rw [none_, List.idxOf_cons_self]
      rfl
    · have below : first < name := least name later
      rw [List.idxOf_cons_ne _ below.ne, ih ordered later, List.filter_cons_of_pos (by simpa using below)]
      rfl

/-! ## The peers -/

variable {live : List String} {server peer : String} {copies : Int}

/-- The others from the server on, in the order in which they become its peers. -/
def following (server : String) (live : List String) : List String :=
  (sorted (live.filter (· ≠ server))).filter (server < ·) ++ (sorted (live.filter (· ≠ server))).filter (· < server)

theorem peersOf_eq (some_ : 0 ≤ copies) : peersOf server live copies = (following server live).take copies.toNat :=
  if_pos some_

theorem mem_following : peer ∈ following server live ↔ peer ∈ live ∧ peer ≠ server := by
  simp only [following, sorted, List.mem_append, List.mem_filter, List.mem_insertionSort, decide_eq_true_eq]
  constructor
  · rintro (⟨listed, -⟩ | ⟨listed, -⟩) <;> exact listed
  · intro listed
    exact (lt_or_gt_of_ne listed.2).elim (fun below => .inr ⟨listed, below⟩) fun above => .inl ⟨listed, above⟩

theorem nodup_following (distinct : live.Nodup) : (following server live).Nodup := by
  have ordered := sorted_names (live.filter (· ≠ server)) (distinct.filter _)
  have apart : (sorted (live.filter (· ≠ server))).Nodup := ordered.imp ne_of_lt
  refine List.nodup_append.mpr ⟨apart.filter _, apart.filter _, ?_⟩
  rintro above inside below inside' rfl
  exact lt_asymm (of_decide_eq_true (List.mem_filter.mp inside).2) (of_decide_eq_true (List.mem_filter.mp inside').2)

theorem length_following (distinct : live.Nodup) (member : server ∈ live) :
    (following server live).length = live.length - 1 := by
  have perm : (following server live).Perm (live.erase server) := by
    refine (List.perm_ext_iff_of_nodup (nodup_following distinct) (distinct.erase _)).mpr fun peer => ?_
    rw [mem_following, distinct.mem_erase_iff, and_comm]
  rw [perm.length_eq, List.length_erase_of_mem member]

/-- The names other than the server with a property that it lacks. -/
theorem length_filter_others (distinct : live.Nodup) {p : String → Prop} [DecidablePred p] (lacks : ¬ p server) :
    ((sorted (live.filter (· ≠ server))).filter (p ·)).length = (live.toFinset.filter p).card := by
  have perm := (List.perm_insertionSort (· ≤ ·) (live.filter (· ≠ server))).filter (p ·)
  have same : (live.filter (· ≠ server)).filter (p ·) = live.filter (p ·) := by
    rw [List.filter_filter]
    refine List.filter_congr fun name _ => ?_
    by_cases has : p name
    · have other : name ≠ server := fun same => lacks (same ▸ has)
      simp [has, other]
    · simp [has]
  rw [sorted, perm.length_eq, same, ← List.toFinset_card_of_nodup (distinct.filter _), List.toFinset_filter]
  simp only [decide_eq_true_eq]

/-- The place of a peer is its gap in the ring. -/
theorem idxOf_following (distinct : live.Nodup) (listed : peer ∈ following server live) :
    (following server live).idxOf peer = Ring.gap live.toFinset server peer := by
  have ordered := sorted_names (live.filter (· ≠ server)) (distinct.filter _)
  obtain ⟨member, other⟩ := mem_following.mp listed
  have there : peer ∈ sorted (live.filter (· ≠ server)) := by
    simpa [sorted, List.mem_insertionSort] using ⟨member, other⟩
  unfold Ring.gap
  by_cases beyond : server < peer
  · -- passed are those between the two
    have inside : peer ∈ (sorted (live.filter (· ≠ server))).filter (server < ·) :=
      List.mem_filter.mpr ⟨there, decide_eq_true beyond⟩
    rw [following, List.idxOf_append_of_mem inside, idxOf_eq_smaller (ordered.filter _) inside, List.filter_filter]
    have passes : ∀ name, Ring.Passes server peer name ↔ name < peer ∧ server < name := by
      intro name
      rw [Ring.Passes, if_pos beyond, and_comm]
    simp only [passes, ← Bool.decide_and]
    exact length_filter_others distinct fun both => lt_irrefl _ both.2
  · -- passed are those up to the greatest, and from the least on
    have below : peer < server := lt_of_le_of_ne (not_lt.mp beyond) other
    have outside : peer ∉ (sorted (live.filter (· ≠ server))).filter (server < ·) :=
      fun inside => beyond (of_decide_eq_true (List.mem_filter.mp inside).2)
    have inside : peer ∈ (sorted (live.filter (· ≠ server))).filter (· < server) :=
      List.mem_filter.mpr ⟨there, decide_eq_true below⟩
    have passes : ∀ name, Ring.Passes server peer name ↔ server < name ∨ name < peer ∧ name < server := by
      intro name
      rw [Ring.Passes, if_neg beyond]
      exact or_congr_right ⟨fun under => ⟨under, under.trans below⟩, fun under => under.1⟩
    have apart : Disjoint (live.toFinset.filter (server < ·))
        (live.toFinset.filter fun name => name < peer ∧ name < server) := by
      rw [Finset.disjoint_filter]
      exact fun name _ above under => lt_asymm above under.2
    rw [following, List.idxOf_append_of_notMem outside, idxOf_eq_smaller (ordered.filter _) inside, List.filter_filter]
    simp only [passes, ← Bool.decide_and]
    rw [Finset.filter_or, Finset.card_union_of_disjoint apart, length_filter_others distinct (lt_irrefl _),
      length_filter_others distinct fun both => lt_irrefl _ both.2]

/-- A peer is one with a small gap. -/
theorem mem_peersOf (distinct : live.Nodup) (some_ : 0 ≤ copies) : peer ∈ peersOf server live copies ↔
    (peer ∈ live ∧ peer ≠ server) ∧ Ring.gap live.toFinset server peer < copies.toNat := by
  rw [peersOf_eq some_, ← mem_following]
  constructor
  · intro taken
    have listed := List.mem_of_mem_take taken
    rw [List.mem_take_iff_idxOf_lt listed, idxOf_following distinct listed] at taken
    exact ⟨listed, taken⟩
  · rintro ⟨listed, near⟩
    rw [List.mem_take_iff_idxOf_lt listed, idxOf_following distinct listed]
    exact near

/-- Every server applies the rule to a listing of the live names of its own: each gets that many peers, and each
is a peer of that many. -/
theorem peers_balanced (distinct : live.Nodup) (some_ : 0 ≤ copies) {listing : String → List String}
    (lists : ∀ server ∈ live, (listing server).Perm live) :
    ∀ server ∈ live,
      (peersOf server (listing server) copies).length = min copies.toNat (live.length - 1) ∧
      (peersOf server (listing server) copies).Nodup ∧
      server ∉ peersOf server (listing server) copies ∧
      (∀ peer ∈ peersOf server (listing server) copies, peer ∈ live) ∧
      (live.filter fun other => other ≠ server ∧ server ∈ peersOf other (listing other) copies).length =
        min copies.toNat (live.length - 1) := by
  intro server member
  have own := lists server member
  have distinct' : (listing server).Nodup := own.nodup_iff.mpr distinct
  refine ⟨?_, ?_, ?_, ?_, ?_⟩
  · rw [peersOf_eq some_, List.length_take, length_following distinct' (own.mem_iff.mpr member), own.length_eq]
  · rw [peersOf_eq some_]
    exact (nodup_following distinct').sublist (List.take_sublist _ _)
  · exact fun listed => ((mem_peersOf distinct' some_).mp listed).1.2 rfl
  · exact fun peer listed => own.mem_iff.mp ((mem_peersOf distinct' some_).mp listed).1.1
  · -- the servers that come shortly before it
    have near : (live.filter fun other => other ≠ server ∧ server ∈ peersOf other (listing other) copies).toFinset =
        (live.toFinset.erase server).filter fun other => Ring.gap live.toFinset other server < copies.toNat := by
      ext other
      simp only [List.mem_toFinset, List.mem_filter, decide_eq_true_eq, Finset.mem_filter, Finset.mem_erase]
      constructor
      · rintro ⟨there, differ, taken⟩
        have perm := lists other there
        have close := ((mem_peersOf (perm.nodup_iff.mpr distinct) some_).mp taken).2
        rw [List.toFinset_eq_of_perm _ _ perm] at close
        exact ⟨⟨differ, there⟩, close⟩
      · rintro ⟨⟨differ, there⟩, close⟩
        have perm := lists other there
        rw [← List.toFinset_eq_of_perm _ _ perm] at close
        exact ⟨there, differ, (mem_peersOf (perm.nodup_iff.mpr distinct) some_).mpr
          ⟨⟨perm.mem_iff.mpr member, differ.symm⟩, close⟩⟩
    rw [← List.toFinset_card_of_nodup (distinct.filter _), near, Ring.card_near (List.mem_toFinset.mpr member),
      List.toFinset_card_of_nodup distinct]

def threeServers : List String := ["srv-3", "srv-1", "srv-2"]

theorem peers_balanced_three :
    (peersOf "srv-3" threeServers 1).length = 1 ∧ (peersOf "srv-3" threeServers 1).Nodup ∧
      "srv-3" ∉ peersOf "srv-3" threeServers 1 ∧ (∀ peer ∈ peersOf "srv-3" threeServers 1, peer ∈ threeServers) ∧
      (threeServers.filter fun other => other ≠ "srv-3" ∧ "srv-3" ∈ peersOf other threeServers 1).length = 1 :=
  @peers_balanced threeServers 1 (by decide) (by decide) (fun _ => threeServers) (fun _ _ => .refl _) "srv-3" (by decide)

end EdgeVms.Verified.PeerRing
