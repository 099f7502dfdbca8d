import ClosureReady.Proofs.DeclarationLines

/-!
What a walk through a tree does.  The nodes of a tree are told apart by their addresses, the numbers
of the children on the way down to them; the preorder listing takes the nodes by ascending addresses,
and each once.  A walk calls its visitor along this listing, hands the state on from call to call and
ends with the first call that halts.
-/

set_option autoImplicit false
set_option relaxedAutoImplicit false

namespace ClosureReady

namespace SyntaxNode

/-! ### Addresses -/

/-- The node at an address, if the address stays inside of the tree. -/
def at? (n : SyntaxNode) : List Nat → Option SyntaxNode
  | [] => some n
  | i :: address => n.children[i]?.bind (·.at? address)

/-- A list holds the nodes of a tree depth first, with the children in order: each address of the tree
has its place in the list, and of two addresses the smaller one comes first. -/
def DepthFirst (n : SyntaxNode) (nodes : List SyntaxNode) : Prop :=
  ∃ addresses : List (List Nat), addresses.Pairwise (· < ·) ∧
    (∀ address, address ∈ addresses ↔ (n.at? address).isSome = true) ∧
    addresses.map n.at? = nodes.map some

mutual

/-- The addresses of a tree in preorder. -/
def addresses : SyntaxNode → List (List Nat)
  | .node _ _ children => [] :: addressesFrom 0 children

/-- The addresses below a node, from one of its children on. -/
def addressesFrom (i : Nat) : List SyntaxNode → List (List Nat)
  | [] => []
  | n :: ns => n.addresses.map (i :: ·) ++ addressesFrom (i + 1) ns

end

theorem exists_cons_of_mem_addressesFrom {i : Nat} {ns : List SyntaxNode} {address : List Nat}
    (h : address ∈ addressesFrom i ns) : ∃ j below, i ≤ j ∧ address = j :: below := by
  induction ns generalizing i with
  | nil => simp [addressesFrom] at h
  | cons n ns ih =>
    rcases List.mem_append.mp h with hfirst | hlater
    · obtain ⟨below, -, rfl⟩ := List.mem_map.mp hfirst
      exact ⟨i, below, Nat.le_refl i, rfl⟩
    · obtain ⟨j, below, hle, rfl⟩ := ih hlater
      exact ⟨j, below, by omega, rfl⟩

mutual

theorem addresses_ascend : (n : SyntaxNode) → n.addresses.Pairwise (· < ·)
  | .node kind region children => by
    rw [addresses, List.pairwise_cons]
    refine ⟨?_, addressesFrom_ascend 0 children⟩
    intro address hmem
    obtain ⟨j, below, -, rfl⟩ := exists_cons_of_mem_addressesFrom hmem
    exact List.Lex.nil

theorem addressesFrom_ascend (i : Nat) :
    (ns : List SyntaxNode) → (addressesFrom i ns).Pairwise (· < ·)
  | [] => List.Pairwise.nil
  | n :: ns => by
    rw [addressesFrom, List.pairwise_append]
    refine ⟨?_, addressesFrom_ascend (i + 1) ns, ?_⟩
    · rw [List.pairwise_map]
      exact (addresses_ascend n).imp List.Lex.cons
    · intro a ha b hb
      obtain ⟨below, -, rfl⟩ := List.mem_map.mp ha
      obtain ⟨j, below', hle, rfl⟩ := exists_cons_of_mem_addressesFrom hb
      exact List.Lex.rel (by omega)

end

mutual

theorem mem_addresses_iff : (n : SyntaxNode) → (address : List Nat) →
    (address ∈ n.addresses ↔ (n.at? address).isSome = true)
  | .node kind region children, [] => by simp [addresses, at?]
  | .node kind region children, j :: below => by
    rw [addresses, List.mem_cons]
    have hbelow := mem_addressesFrom_iff 0 children j below
    rw [Nat.zero_add] at hbelow
    simpa [at?, SyntaxNode.children] using hbelow

theorem mem_addressesFrom_iff (i : Nat) : (ns : List SyntaxNode) → (j : Nat) → (below : List Nat) →
    ((i + j) :: below ∈ addressesFrom i ns ↔ (ns[j]?.bind (·.at? below)).isSome = true)
  | [], j, below => by simp [addressesFrom]
  | n :: ns, 0, below => by
    have hlater : ¬ i :: below ∈ addressesFrom (i + 1) ns := by
      intro hmem
      obtain ⟨k, below', hle, heq⟩ := exists_cons_of_mem_addressesFrom hmem
      have := (List.cons.inj heq).1
      omega
    simpa [addressesFrom, hlater] using mem_addresses_iff n below
  | n :: ns, j + 1, below => by
    have hfirst : ¬ i + (j + 1) = i := by omega
    have hrest := mem_addressesFrom_iff (i + 1) ns j below
    rw [Nat.add_right_comm, Nat.add_assoc] at hrest
    simpa [addressesFrom, hfirst] using hrest

end

mutual

theorem map_at_addresses : (n : SyntaxNode) → n.addresses.map n.at? = n.preorder.map some
  | .node kind region children => by
    rw [addresses, preorder, List.map_cons, List.map_cons]
    have hbelow := map_at_addressesFrom kind region [] children
    rw [List.length_nil, List.nil_append] at hbelow
    rw [hbelow, at?]

theorem map_at_addressesFrom (kind : NodeKind) (region : Region) (earlier : List SyntaxNode) :
    (ns : List SyntaxNode) →
      (addressesFrom earlier.length ns).map (SyntaxNode.node kind region (earlier ++ ns)).at? =
        (preorderAll ns).map some
  | [] => rfl
  | n :: ns => by
    rw [addressesFrom, preorderAll, List.map_append, List.map_append, List.map_map]
    have hlater := map_at_addressesFrom kind region (earlier ++ [n]) ns
    rw [List.length_append, List.length_singleton, List.append_assoc, List.singleton_append] at hlater
    have hfirst : (SyntaxNode.node kind region (earlier ++ n :: ns)).at? ∘ (earlier.length :: ·) =
        n.at? := by
      funext address
      simp [at?, children]
    rw [hfirst, map_at_addresses n, hlater]

end

/-- The preorder listing is depth first, with the children in order. -/
theorem preorder_depthFirst (n : SyntaxNode) : n.DepthFirst n.preorder :=
  ⟨n.addresses, addresses_ascend n, mem_addresses_iff n, map_at_addresses n⟩

end SyntaxNode

/-! ### Calls of the visitor -/

namespace Step

variable {σ τ : Type}

/-- Changes the state of a step and not whether it goes on. -/
def map (f : σ → τ) : Step σ → Step τ
  | .proceed s => .proceed (f s)
  | .halt s => .halt (f s)

/-- A visitor that also notes the nodes it is called on. -/
def recording (visit : σ → SyntaxNode → Step σ) (s : σ × List SyntaxNode) (n : SyntaxNode) :
    Step (σ × List SyntaxNode) :=
  (visit s.1 n).map (·, s.2 ++ [n])

variable (visit : σ → SyntaxNode → Step σ)

/-- The state after calls on some nodes, each of which gets the state the one before has left. -/
def threaded (s : σ) (nodes : List SyntaxNode) : σ :=
  nodes.foldl (fun s n => (visit s n).state) s

/-- The visitor halts on none of some nodes that it is called on one after the other. -/
def Passes (s : σ) (nodes : List SyntaxNode) : Prop :=
  ∀ earlier n later, nodes = earlier ++ n :: later →
    (visit (threaded visit s earlier) n).isProceed = true

/-- The nodes of a list up to the first on which the visitor halts. -/
def called (s : σ) : List SyntaxNode → List SyntaxNode
  | [] => []
  | n :: ns =>
    match visit s n with
    | .proceed t => n :: called t ns
    | .halt _ => [n]

theorem through_recording (s : σ) (noted ns : List SyntaxNode) :
    through (recording visit) (s, noted) ns =
      (through visit s ns).map (·, noted ++ called visit s ns) := by
  induction ns generalizing s noted with
  | nil => simp [through, called, map]
  | cons n ns ih =>
    simp only [through, recording, called]
    cases visit s n with
    | proceed t =>
      have hrest := ih t (noted ++ [n])
      rw [List.append_assoc, List.singleton_append] at hrest
      exact hrest
    | halt t => rfl

theorem called_isFront (s : σ) (ns : List SyntaxNode) : called visit s ns <+: ns := by
  induction ns generalizing s with
  | nil => exact List.prefix_rfl
  | cons n ns ih =>
    simp only [called]
    cases visit s n with
    | proceed t => exact List.prefix_cons_inj n |>.mpr (ih t)
    | halt t => exact ⟨ns, rfl⟩

theorem through_state (s : σ) (ns : List SyntaxNode) :
    (through visit s ns).state = threaded visit s (called visit s ns) := by
  induction ns generalizing s with
  | nil => rfl
  | cons n ns ih =>
    simp only [through, called]
    cases hvisit : visit s n with
    | proceed t => simpa [andThen, threaded, hvisit, state] using ih t
    | halt t => simp [andThen, threaded, hvisit, state]

variable {visit}

theorem passes_none (s : σ) : Passes visit s [] := by
  intro earlier n later heq
  simp at heq

theorem Passes.cons {s t : σ} {n : SyntaxNode} {ns : List SyntaxNode} (h : visit s n = .proceed t)
    (hns : Passes visit t ns) : Passes visit s (n :: ns) := by
  intro earlier m later heq
  cases earlier with
  | nil =>
    obtain ⟨rfl, -⟩ := List.cons.inj heq
    simp [threaded, h, isProceed]
  | cons first earlier =>
    obtain ⟨rfl, htail⟩ := List.cons.inj heq
    simpa [threaded, h, state] using hns earlier m later htail

/-- A walk along a list comes past all of its nodes, or ends with the first call that halts. -/
theorem through_cases (visit : σ → SyntaxNode → Step σ) (s : σ) (ns : List SyntaxNode) :
    (called visit s ns = ns ∧ Passes visit s ns ∧ (through visit s ns).isProceed = true) ∨
    ∃ earlier n, called visit s ns = earlier ++ [n] ∧ Passes visit s earlier ∧
      (visit (threaded visit s earlier) n).isProceed = false ∧
      (through visit s ns).isProceed = false := by
  induction ns generalizing s with
  | nil => exact Or.inl ⟨rfl, passes_none s, rfl⟩
  | cons n ns ih =>
    simp only [called, through]
    cases hvisit : visit s n with
    | halt t =>
      refine Or.inr ⟨[], n, rfl, passes_none s, ?_, rfl⟩
      simp [threaded, hvisit, isProceed]
    | proceed t =>
      rcases ih t with ⟨hall, hpasses, hproceed⟩ | ⟨earlier, m, hcalled, hpasses, hhalt, hstop⟩
      · exact Or.inl ⟨congrArg (n :: ·) hall, hpasses.cons hvisit, hproceed⟩
      · refine Or.inr ⟨n :: earlier, m, congrArg (n :: ·) hcalled, hpasses.cons hvisit, ?_, hstop⟩
        simpa [threaded, hvisit, state] using hhalt

end Step

/-- A walk calls its visitor on the nodes of the tree depth first, with the children in order, up to
and with the first one on which the visitor halts, or on all of them; each call gets the state that
the one before has left, and the walk ends early exactly when a call halts. -/
theorem walk_early_exit {σ : Type} (visit : σ → SyntaxNode → Step σ) (s : σ) (tree : SyntaxNode) :
    ∃ called later : List SyntaxNode, tree.DepthFirst (called ++ later) ∧
      tree.walk (Step.recording visit) (s, []) = (tree.walk visit s).map (·, called) ∧
      (tree.walk visit s).state = Step.threaded visit s called ∧
      (later = [] ∧ Step.Passes visit s called ∨
        ∃ earlier n, called = earlier ++ [n] ∧ Step.Passes visit s earlier ∧
          (visit (Step.threaded visit s earlier) n).isProceed = false) ∧
      ((tree.walk visit s).isProceed = false ↔ ∃ earlier n rest, called = earlier ++ n :: rest ∧
        (visit (Step.threaded visit s earlier) n).isProceed = false) := by
  obtain ⟨later, hlisting⟩ := Step.called_isFront visit s tree.preorder
  refine ⟨Step.called visit s tree.preorder, later, ?_, ?_, ?_, ?_⟩
  · rw [hlisting]
    exact tree.preorder_depthFirst
  · rw [SyntaxNode.walk_eq_through, SyntaxNode.walk_eq_through, Step.through_recording,
      List.nil_append]
  · rw [SyntaxNode.walk_eq_through, Step.through_state]
  · rw [SyntaxNode.walk_eq_through]
    rcases Step.through_cases visit s tree.preorder with
      ⟨hall, hpasses, hproceed⟩ | ⟨earlier, n, hcalled, hpasses, hhalt, hstop⟩
    · have hlater : later = [] := by rw [hall] at hlisting; simpa using hlisting
      rw [hall]
      refine ⟨Or.inl ⟨hlater, hpasses⟩, ?_⟩
      rw [hproceed]
      simp only [Bool.true_eq_false, false_iff]
      rintro ⟨earlier, n, rest, heq, hhalt⟩
      rw [hpasses earlier n rest heq] at hhalt
      exact Bool.noConfusion hhalt
    · refine ⟨Or.inr ⟨earlier, n, hcalled, hpasses, hhalt⟩, ?_⟩
      simp only [hstop, true_iff]
      exact ⟨earlier, n, [], hcalled, hhalt⟩

end ClosureReady
