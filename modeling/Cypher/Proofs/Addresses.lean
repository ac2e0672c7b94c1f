import Cypher.Tree.Visit

/-!
# Addresses in a tree

Equal nodes may stand in several places of one tree, so that what a traversal visits is told apart
by its address: the number of the child to go to, level by level (`Cypher.Node.at?`). A node with
its address is a spot. `Cypher.Spot.survey` lists the spots of some trees the way a traversal comes
by them, with or without those inside hidden nodes, and everything that a listing visitor does is
said of this list:

* without hidden nodes it holds every spot of the tree (`Cypher.Spot.mem_survey_iff`), and its
  addresses go up in lexicographic order (`Cypher.Spot.pairwise_survey`), in which a node comes
  before what is inside it and that before what stands behind the node;
* hiding nodes leaves out the spots below them and no others (`Cypher.Spot.survey_eq_filter`);
* a visitor who stops after a number of nodes has seen that many from the front of the list
  (`Cypher.Spot.traverse_lister_some`).
-/

namespace Cypher

/-- **The node at an address**: which child to go to at each level. -/
def Node.at? : Node → List Nat → Option Node
  | n, [] => some n
  | n, i :: address => n.children[i]?.bind (at? · address)

theorem Node.at?_append (n : Node) (a b : List Nat) :
    n.at? (a ++ b) = (n.at? a).bind (at? · b) := by
  induction a generalizing n with
  | nil => rfl
  | cons i a ih =>
    rw [List.cons_append, at?, at?]
    rcases n.children[i]? with - | c
    · rfl
    · exact ih c

/-- **A node in its place.** -/
structure Spot where
  /-- The address of the node. -/
  address : List Nat
  /-- The node. -/
  node : Node

namespace Spot

/-- The spots directly below a spot. -/
def children (s : Spot) : List Spot := s.node.children.mapIdx fun i n => ⟨s.address ++ [i], n⟩

theorem map_node_children (s : Spot) : s.children.map node = s.node.children := by
  refine List.ext_getElem (by simp [children]) fun i hi hi' => ?_
  simp [children]

theorem mem_children_iff {s t : Spot} : t ∈ s.children ↔
    ∃ i, s.node.children[i]? = some t.node ∧ t.address = s.address ++ [i] := by
  rw [children, List.mem_mapIdx]
  constructor
  · rintro ⟨i, hi, rfl⟩
    exact ⟨i, List.getElem?_eq_getElem hi, rfl⟩
  · rintro ⟨i, hnode, haddress⟩
    obtain ⟨hi, hnode⟩ := List.getElem?_eq_some_iff.1 hnode
    exact ⟨i, hi, by rw [← haddress, hnode]⟩

/-- The spots directly below a spot, or none if its node is hidden. -/
def shown (hides : Node → Bool) (s : Spot) : List Spot := if hides s.node then [] else s.children

theorem shown_of_hidden {hides : Node → Bool} {s : Spot} (h : hides s.node = true) :
    s.shown hides = [] := if_pos h

theorem shown_of_not_hidden {hides : Node → Bool} {s : Spot} (h : hides s.node = false) :
    s.shown hides = s.children := if_neg (by simp [h])

theorem shown_plain (s : Spot) : s.shown (fun _ => false) = s.children := rfl

theorem mem_children_of_mem_shown {hides : Node → Bool} {s t : Spot} (h : t ∈ s.shown hides) :
    t ∈ s.children := by
  unfold shown at h
  split at h
  · cases h
  · exact h

/-! ### Surveys -/

/-- **The spots of some trees** in the order of a traversal, without those below hidden nodes. -/
def survey (hides : Node → Bool) : List Spot → List Spot
  | [] => []
  | s :: rest => s :: survey hides (s.shown hides ++ rest)
termination_by todo => Node.weigh (todo.map node)
decreasing_by
  unfold shown
  split
  · exact Node.weigh_lt_cons _ _
  · rw [List.map_append, map_node_children]
    exact Node.weigh_children_append_lt _ _

variable {hides : Node → Bool} {root : Node} {todo : List Spot}

theorem survey_append (hides : Node → Bool) (a b : List Spot) :
    survey hides (a ++ b) = survey hides a ++ survey hides b := by
  fun_induction survey hides a with
  | case1 => rfl
  | case2 s rest ih => rw [List.cons_append, survey, ← List.append_assoc, ih, List.cons_append]

/-- Every spot of a survey is at or below one that the survey starts from. -/
theorem exists_of_mem_survey {t : Spot} (h : t ∈ survey hides todo) :
    ∃ s ∈ todo, ∃ below, t.address = s.address ++ below := by
  fun_induction survey hides todo with
  | case1 => cases h
  | case2 s rest ih =>
    rcases List.mem_cons.1 h with rfl | h
    · exact ⟨t, List.mem_cons_self, [], (List.append_nil _).symm⟩
    obtain ⟨u, hu, below, ht⟩ := ih h
    rcases List.mem_append.1 hu with hu | hu
    · obtain ⟨i, -, hi⟩ := mem_children_iff.1 (mem_children_of_mem_shown hu)
      rw [hi, List.append_assoc] at ht
      exact ⟨s, List.mem_cons_self, _, ht⟩
    · exact ⟨u, List.mem_cons_of_mem s hu, below, ht⟩

/-! ### Every spot once, in order -/

/-- All that is at or below one address comes before all that is at or below another. -/
def Precedes (a b : List Nat) : Prop := ∀ x y, a ++ x < b ++ y

theorem Precedes.below {a b : List Nat} (h : Precedes a b) (x y : List Nat) :
    Precedes (a ++ x) (b ++ y) := fun x' y' => by
  rw [List.append_assoc, List.append_assoc]
  exact h _ _

theorem pairwise_children (s : Spot) :
    s.children.Pairwise fun t u => Precedes t.address u.address := by
  rw [List.pairwise_iff_getElem]
  intro i j hi hj hij x y
  simp only [children, List.getElem_mapIdx, List.append_assoc]
  exact List.append_left_lt (List.cons_lt_cons_iff.2 (.inl hij))

theorem pairwise_shown (hides : Node → Bool) (s : Spot) :
    (s.shown hides).Pairwise fun t u => Precedes t.address u.address := by
  unfold shown
  split
  · exact .nil
  · exact pairwise_children s

/-- A node comes before what is below it. -/
theorem lt_append {a x : List Nat} (hx : x ≠ []) : a < a ++ x := by
  obtain ⟨i, x, rfl⟩ := List.exists_cons_of_ne_nil hx
  have hlt : a ++ [] < a ++ i :: x := List.append_left_lt (List.nil_lt_cons i x)
  rwa [List.append_nil] at hlt

/-- **The addresses of a survey go up** in lexicographic order, if the trees stand side by side. -/
theorem pairwise_survey (h : todo.Pairwise fun s t => Precedes s.address t.address) :
    (survey hides todo).Pairwise fun s t => s.address < t.address := by
  fun_induction survey hides todo with
  | case1 => exact .nil
  | case2 s rest ih =>
    obtain ⟨hhead, htail⟩ := List.pairwise_cons.1 h
    refine List.pairwise_cons.2 ⟨fun t ht => ?_, ih ?_⟩
    · obtain ⟨u, hu, below, hbelow⟩ := exists_of_mem_survey ht
      rw [hbelow]
      rcases List.mem_append.1 hu with hu | hu
      · obtain ⟨i, -, hi⟩ := mem_children_iff.1 (mem_children_of_mem_shown hu)
        rw [hi, List.append_assoc]
        exact lt_append (List.cons_ne_nil i below)
      · simpa using hhead u hu [] below
    · refine List.pairwise_append.2 ⟨pairwise_shown hides s, htail, fun t ht u hu => ?_⟩
      obtain ⟨i, -, hi⟩ := mem_children_iff.1 (mem_children_of_mem_shown ht)
      simpa [hi] using (hhead u hu).below [i] []

/-- Spots that are where their addresses say. -/
def Located (root : Node) (todo : List Spot) : Prop :=
  ∀ s ∈ todo, root.at? s.address = some s.node

theorem Located.start : Located root [⟨[], root⟩] := fun t ht => by
  rw [List.mem_singleton.1 ht]
  rfl

theorem Located.tail {s : Spot} (h : Located root (s :: todo)) : Located root todo :=
  fun t ht => h t (List.mem_cons_of_mem s ht)

theorem Located.step {s : Spot} (h : Located root (s :: todo)) :
    Located root (s.shown hides ++ todo) := by
  refine List.forall_mem_append.2 ⟨fun t ht => ?_, h.tail⟩
  obtain ⟨i, hi, haddress⟩ := mem_children_iff.1 (mem_children_of_mem_shown ht)
  rw [haddress, Node.at?_append, h s List.mem_cons_self, Option.bind_some, Node.at?, hi]
  rfl

theorem located_survey (h : Located root todo) : Located root (survey hides todo) := by
  fun_induction survey hides todo with
  | case1 => exact h
  | case2 s rest ih => exact List.forall_mem_cons.2 ⟨h s List.mem_cons_self, ih h.step⟩

/-- **Nothing is left out** where no node is hidden. -/
theorem mem_survey_of_at? {s : Spot} {below : List Nat} {n : Node} (hs : s ∈ todo)
    (hn : s.node.at? below = some n) :
    ⟨s.address ++ below, n⟩ ∈ survey (fun _ => false) todo := by
  fun_induction survey (fun _ => false) todo generalizing s below with
  | case1 => cases hs
  | case2 t rest ih =>
    rcases List.mem_cons.1 hs with rfl | hs
    · rcases below with - | ⟨i, below⟩
      · obtain rfl := Option.some.inj hn
        rw [List.append_nil]
        exact List.mem_cons_self
      · obtain ⟨c, hc, hn⟩ := Option.bind_eq_some_iff.1 hn
        have hchild : ⟨s.address ++ [i], c⟩ ∈ s.shown fun _ => false :=
          mem_children_iff.2 ⟨i, hc, rfl⟩
        have hmem := ih (List.mem_append_left rest hchild) hn
        rw [List.append_assoc] at hmem
        exact List.mem_cons_of_mem s hmem
    · exact List.mem_cons_of_mem t (ih (List.mem_append_right _ hs) hn)

/-- **The survey of a tree holds every spot of it**, and nothing else. -/
theorem mem_survey_iff {s : Spot} :
    s ∈ survey (fun _ => false) [⟨[], root⟩] ↔ root.at? s.address = some s.node := by
  refine ⟨located_survey .start s, fun h => ?_⟩
  have hroot : (⟨[], root⟩ : Spot) ∈ [⟨[], root⟩] := List.mem_cons_self
  exact mem_survey_of_at? hroot h

/-! ### Hidden nodes -/

/-- Nothing above a spot is hidden. -/
def InSight (hides : Node → Bool) (root : Node) (s : Spot) : Prop :=
  ∀ above n, above <+: s.address → above ≠ s.address → root.at? above = some n → hides n = false

/-- Below a node in sight there is something in sight just if the node is not hidden. -/
theorem inSight_child_iff {s t : Spot} (hs : root.at? s.address = some s.node)
    (hsight : InSight hides root s) (ht : t ∈ s.children) :
    InSight hides root t ↔ hides s.node = false := by
  obtain ⟨i, -, haddress⟩ := mem_children_iff.1 ht
  constructor
  · intro h
    refine h s.address s.node ?_ ?_ hs
    · rw [haddress]
      exact List.prefix_append _ _
    · simp [haddress]
  · intro h above n habove hne hn
    rw [haddress] at habove hne
    have habove := (List.prefix_concat_iff.1 habove).resolve_left hne
    by_cases heq : above = s.address
    · rw [heq, hs] at hn
      exact Option.some.inj hn ▸ h
    · exact hsight above n habove heq hn

/-- Nothing below a hidden node is in sight. -/
theorem not_inSight_of_hidden {s t : Spot} (hs : root.at? s.address = some s.node)
    (hhides : hides s.node = true) (ht : t ∈ survey (fun _ => false) s.children) :
    ¬ InSight hides root t := by
  obtain ⟨c, hc, below, hbelow⟩ := exists_of_mem_survey ht
  obtain ⟨i, -, haddress⟩ := mem_children_iff.1 hc
  rw [haddress, List.append_assoc] at hbelow
  intro h
  have hfalse := h s.address s.node (by rw [hbelow]; exact List.prefix_append _ _)
    (by simp [hbelow]) hs
  rw [hhides] at hfalse
  cases hfalse

/-- **Hiding nodes leaves out what is below them**, and nothing else. -/
theorem survey_eq_filter {inSight : Spot → Bool} (hlocated : Located root todo)
    (hsight : ∀ s, inSight s = true ↔ InSight hides root s) (htodo : ∀ s ∈ todo, inSight s = true) :
    survey hides todo = (survey (fun _ => false) todo).filter inSight := by
  fun_induction survey hides todo with
  | case1 => rw [survey, List.filter_nil]
  | case2 s rest ih =>
    obtain ⟨hhead, htail⟩ := List.forall_mem_cons.1 htodo
    have hs := hlocated s List.mem_cons_self
    rw [survey, List.filter_cons, if_pos hhead, shown_plain, ih hlocated.step ?_]
    · refine congrArg (s :: ·) ?_
      by_cases hhides : hides s.node = true
      · have hnone : (survey (fun _ => false) s.children).filter inSight = [] :=
          List.filter_eq_nil_iff.2 fun t ht h =>
            not_inSight_of_hidden hs hhides ht ((hsight t).1 h)
        rw [shown_of_hidden hhides, survey_append _ s.children, List.filter_append, hnone]
        rfl
      · rw [shown_of_not_hidden (eq_false_of_ne_true hhides)]
    · refine List.forall_mem_append.2 ⟨fun t ht => ?_, htail⟩
      by_cases hhides : hides s.node = true
      · rw [shown_of_hidden hhides] at ht
        cases ht
      · exact (hsight t).2 ((inSight_child_iff hs ((hsight s).1 hhead)
          (mem_children_of_mem_shown ht)).2 (eq_false_of_ne_true hhides))

/-- **Hiding nodes of one tree** leaves out the spots that have a hidden one above them. -/
theorem survey_eq_filter_above (hides : Node → Bool) (root : Node) :
    survey hides [⟨[], root⟩] = (survey (fun _ => false) [⟨[], root⟩]).filter fun s =>
      decide (∀ t ∈ survey (fun _ => false) [⟨[], root⟩],
        t.address <+: s.address → t.address ≠ s.address → hides t.node = false) := by
  classical
  have hstart : InSight hides root ⟨[], root⟩ := fun above n habove hne _ =>
    absurd (List.prefix_nil.1 habove) hne
  rw [survey_eq_filter .start (fun s => decide_eq_true_iff (p := InSight hides root s))
    (List.forall_mem_singleton.2 (decide_eq_true hstart))]
  refine List.filter_congr fun s hs => decide_eq_decide.2 ⟨fun h t ht habove hne => ?_, fun h => ?_⟩
  · exact h t.address t.node habove hne (mem_survey_iff.1 ht)
  · exact fun above n habove hne hn => h ⟨above, n⟩ (mem_survey_iff.2 hn) habove hne

/-! ### What a listing visitor sees -/

theorem map_node_survey (todo : List Spot) :
    (survey (fun _ => false) todo).map node = Node.preorder (todo.map node) := by
  fun_induction survey (fun _ => false) todo with
  | case1 => rw [List.map_nil, Node.preorder]
  | case2 s rest ih =>
    rw [List.map_cons, ih, List.map_cons, Node.preorder, List.map_append, shown_plain,
      map_node_children]

/-- **One step of a listing visitor**: the node is seen, and then the visitor stops or goes on with
what is shown of it. -/
theorem traverse_lister_cons (limit : Option Nat) (hides : Node → Bool) (seen : List Node)
    (s : Spot) (rest : List Spot) :
    Node.traverse (Node.lister limit hides) seen ((s :: rest).map node) =
      if limit.any (· ≤ seen.length + 1) then (seen ++ [s.node], true)
      else Node.traverse (Node.lister limit hides) (seen ++ [s.node])
        ((s.shown hides ++ rest).map node) := by
  rw [List.map_cons, Node.traverse, Node.lister, List.length_append, List.length_singleton,
    List.map_append, shown]
  by_cases hstop : limit.any (· ≤ seen.length + 1) = true
  · simp only [hstop, if_true]
  · cases hhides : hides s.node with
    | true => simp only [hstop, if_true, if_false, Bool.false_eq_true, List.map_nil, List.nil_append]
    | false => simp only [hstop, if_false, Bool.false_eq_true, map_node_children]

/-- **A visitor who does not stop** sees the nodes of the survey. -/
theorem traverse_lister_none (hides : Node → Bool) (seen : List Node) (todo : List Spot) :
    Node.traverse (Node.lister none hides) seen (todo.map node) =
      (seen ++ (survey hides todo).map node, false) := by
  fun_induction survey hides todo generalizing seen with
  | case1 => rw [List.map_nil, Node.traverse, List.append_nil]
  | case2 s rest ih =>
    rw [traverse_lister_cons, Option.any_none, if_neg Bool.false_ne_true, ih, List.append_assoc]
    rfl

/-- **A visitor who stops at a number of nodes** sees that many from the front of the survey. -/
theorem traverse_lister_some (hides : Node → Bool) {limit : Nat} (seen : List Node)
    (hseen : seen.length < limit) (todo : List Spot) :
    Node.traverse (Node.lister (some limit) hides) seen (todo.map node) =
      (seen ++ ((survey hides todo).map node).take (limit - seen.length),
        decide (limit ≤ seen.length + (survey hides todo).length)) := by
  fun_induction survey hides todo generalizing seen with
  | case1 =>
    have hnot : ¬ limit ≤ seen.length + 0 := Nat.not_le.2 hseen
    rw [List.map_nil, Node.traverse, List.take_nil, List.append_nil, List.length_nil,
      decide_eq_false hnot]
  | case2 s rest ih =>
    obtain ⟨room, rfl⟩ := Nat.exists_eq_add_of_lt hseen
    have hroom : seen.length + room + 1 - seen.length = room + 1 := by omega
    rw [traverse_lister_cons, Option.any_some, hroom, List.map_cons, List.take_succ_cons,
      List.length_cons]
    by_cases hstop : seen.length + room + 1 ≤ seen.length + 1
    · obtain rfl : room = 0 := by omega
      rw [if_pos (decide_eq_true hstop), List.take_zero, decide_eq_true (by omega)]
    · have hlength : (seen ++ [s.node]).length = seen.length + 1 := by simp
      have hrest : seen.length + room + 1 - (seen.length + 1) = room := by omega
      rw [if_neg (by simpa using hstop), ih _ (by omega), hlength, hrest, List.append_assoc]
      refine congrArg (Prod.mk _) (decide_eq_decide.2 ?_)
      omega

end Spot

end Cypher
