import ClosureReady.Proofs.Traversal
import ClosureReady.Tree.Build

/-!
The tree that is built mirrors the one the grammar has found.  A builder in the middle of a walk has the
nodes entered and not yet left on its stack; the events of a further node leave that stack as it is, but
for one more child of the innermost node, and that child is the node with all below it.  So the walk
through a whole tree leaves one node, which has a node of its kind and place at each address, and the
literals are noted by ascending addresses.
-/

set_option autoImplicit false
set_option relaxedAutoImplicit false

namespace ClosureReady

/-- Only a declaration of the grammar is a declaration in the tree. -/
theorem ParseKind.lowered_eq_variableDeclaration {kind : ParseKind} {names : List (Option String)} :
    kind.lowered = .variableDeclaration names ↔
      ∃ bindings, kind = .variableDeclaration bindings ∧ names = bindings.map Binding.name? := by
  cases kind with
  | variableDeclaration bindings =>
    simp only [lowered, NodeKind.variableDeclaration.injEq, variableDeclaration.injEq, exists_eq_left']
    exact eq_comm
  | program => simp [lowered]
  | literal kind => simp [lowered]
  | other => simp [lowered]

/-- The names of declarators: one entry for each, in order, with the name if it binds a single one and
nothing if it binds a pattern. -/
def Binding.Names (bindings : List Binding) (names : List (Option String)) : Prop :=
  names.length = bindings.length ∧
    (∀ (i : Nat) (name : String),
      bindings[i]? = some (.identifier name) ↔ names[i]? = some (some name)) ∧
    ∀ i : Nat, bindings[i]? = some .pattern ↔ names[i]? = some none

namespace ParseNode

/-- What the grammar takes the node for. -/
def kind : ParseNode → ParseKind
  | .node kind _ _ => kind

/-- The span of the node in bytes. -/
def span : ParseNode → Span
  | .node _ span _ => span

/-- The children in source order. -/
def children : ParseNode → List ParseNode
  | .node _ _ children => children

/-- The node at an address, if the address stays inside of the tree. -/
def at? (n : ParseNode) : List Nat → Option ParseNode
  | [] => some n
  | i :: address => n.children[i]?.bind (·.at? address)

/-- The token a node is scanned as, if it is a literal. -/
def literal? (n : ParseNode) : Option Literal :=
  match n.kind with
  | .literal kind => some ⟨n.span, kind.tokenKind⟩
  | _ => none

/-- A list holds the addresses of a tree in preorder: each of them, and of two the smaller one first. -/
def Preorder (n : ParseNode) (addresses : List (List Nat)) : Prop :=
  addresses.Pairwise (· < ·) ∧ ∀ address, address ∈ addresses ↔ (n.at? address).isSome = true

end ParseNode

/-- A node of the tree is that of a node of the grammar: it covers the same text, has as many children and
is of the same sort, and a declaration lists the names of its declarators. -/
structure SyntaxNode.StandsFor (index : LineIndex) (t : SyntaxNode) (n : ParseNode) : Prop where
  region : t.region = ⟨index.position n.span.start, index.position n.span.stop⟩
  children : t.children.length = n.children.length
  program : t.kind = .program ↔ n.kind = .program
  literal : ∀ kind, t.kind = .literal kind ↔ n.kind = .literal kind
  other : t.kind = .other ↔ n.kind = .other
  declaration : ∀ names, t.kind = .variableDeclaration names ↔
    ∃ bindings, n.kind = .variableDeclaration bindings ∧ Binding.Names bindings names

/-- A tree has a node that stands for the node of the grammar at each address, and no further nodes. -/
def SyntaxNode.Mirrors (index : LineIndex) (t : SyntaxNode) (n : ParseNode) : Prop :=
  ∀ address, Option.Rel (StandsFor index) (t.at? address) (n.at? address)

namespace ParseNode

variable (index : LineIndex)

/-! ### The tree node by node -/

mutual

/-- The tree with places, built from the root down. -/
def lowered : ParseNode → SyntaxNode
  | .node kind span children => .node kind.lowered (index.region span) (loweredAll children)

/-- The trees with places of several nodes. -/
def loweredAll : List ParseNode → List SyntaxNode
  | [] => []
  | n :: ns => lowered n :: loweredAll ns

end

mutual

/-- The literals of a node and of all below it, each before those inside of it. -/
def literals : ParseNode → List Literal
  | .node kind span children => (Builder.literalOf kind span).toList ++ literalsAll children

/-- The literals of several nodes, one after the other. -/
def literalsAll : List ParseNode → List Literal
  | [] => []
  | n :: ns => literals n ++ literalsAll ns

end

theorem loweredAll_eq_map (ns : List ParseNode) : loweredAll index ns = ns.map (lowered index) := by
  induction ns with
  | nil => rfl
  | cons n ns ih => rw [loweredAll, ih, List.map_cons]

theorem children_lowered (n : ParseNode) :
    (n.lowered index).children = n.children.map (lowered index) := by
  cases n with
  | node kind span children => exact loweredAll_eq_map index children

theorem at?_lowered (n : ParseNode) (address : List Nat) :
    (n.lowered index).at? address = (n.at? address).map (lowered index) := by
  induction address generalizing n with
  | nil => rfl
  | cons i address ih =>
    rw [SyntaxNode.at?, at?, children_lowered, List.getElem?_map, Option.bind_map]
    cases n.children[i]? with
    | none => rfl
    | some child => exact ih child

theorem eq_map_name?_iff {bindings : List Binding} {names : List (Option String)} :
    names = bindings.map Binding.name? ↔ Binding.Names bindings names := by
  constructor
  · rintro rfl
    refine ⟨List.length_map _, ?_, ?_⟩
    all_goals
      intro i
      rw [List.getElem?_map]
      rcases bindings[i]? with _ | _ | _ <;> simp [Binding.name?]
  · rintro ⟨hlength, hnamed, hpattern⟩
    apply List.ext_getElem?
    intro i
    rw [List.getElem?_map]
    cases hbinding : bindings[i]? with
    | none =>
      rw [List.getElem?_eq_none_iff] at hbinding
      simpa [hlength] using hbinding
    | some binding =>
      cases binding with
      | identifier name => exact (hnamed i name).mp hbinding
      | pattern => exact (hpattern i).mp hbinding

theorem standsFor_lowered (n : ParseNode) : (n.lowered index).StandsFor index n := by
  have hkind : (n.lowered index).kind = n.kind.lowered := by cases n; rfl
  constructor
  case region => cases n; rfl
  case children => rw [children_lowered, List.length_map]
  case declaration =>
    intro names
    simp only [hkind, ParseKind.lowered_eq_variableDeclaration, eq_map_name?_iff]
  all_goals
    rw [hkind]
    cases n.kind <;> simp [ParseKind.lowered]

theorem lowered_mirrors (n : ParseNode) : (n.lowered index).Mirrors index n := by
  intro address
  rw [at?_lowered]
  cases n.at? address with
  | none => exact .none
  | some m => exact .some (standsFor_lowered index m)

mutual

/-- Every node of the tree is one that is entered on a walk. -/
theorem mem_preorder_lowered {t : SyntaxNode} : (n : ParseNode) → t ∈ (n.lowered index).preorder →
    ∃ kind span, TreeEvent.enter kind span ∈ n.events ∧ t.kind = kind.lowered ∧
      t.region = index.region span
  | .node kind span children, h => by
    rcases List.mem_cons.mp h with rfl | hbelow
    · exact ⟨kind, span, List.mem_cons_self, rfl, rfl⟩
    · obtain ⟨k, stretch, hevent, hkind, hregion⟩ := mem_preorderAll_lowered children hbelow
      exact ⟨k, stretch, List.mem_cons_of_mem _ (List.mem_append_left _ hevent), hkind, hregion⟩

theorem mem_preorderAll_lowered {t : SyntaxNode} : (ns : List ParseNode) →
    t ∈ SyntaxNode.preorderAll (loweredAll index ns) →
    ∃ kind span, TreeEvent.enter kind span ∈ eventsAll ns ∧ t.kind = kind.lowered ∧
      t.region = index.region span
  | [], h => absurd h List.not_mem_nil
  | n :: ns, h => by
    rcases List.mem_append.mp h with hfirst | hlater
    · obtain ⟨k, stretch, hevent, hkind, hregion⟩ := mem_preorder_lowered n hfirst
      exact ⟨k, stretch, List.mem_append_left _ hevent, hkind, hregion⟩
    · obtain ⟨k, stretch, hevent, hkind, hregion⟩ := mem_preorderAll_lowered ns hlater
      exact ⟨k, stretch, List.mem_append_right _ hevent, hkind, hregion⟩

end

/-! ### Literals by their addresses -/

mutual

theorem literals_eq : (n : ParseNode) →
    n.literals = (n.lowered index).addresses.filterMap fun address => (n.at? address).bind literal?
  | .node kind span children => by
    have hbelow := literalsAll_eq kind span [] children
    rw [List.length_nil, List.nil_append] at hbelow
    have hroot : ((ParseNode.node kind span children).at? []).bind literal? =
        Builder.literalOf kind span := rfl
    rw [literals, lowered, SyntaxNode.addresses, List.filterMap_cons, hroot, hbelow]
    cases Builder.literalOf kind span <;> rfl

theorem literalsAll_eq (kind : ParseKind) (span : Span) (earlier : List ParseNode) :
    (ns : List ParseNode) → literalsAll ns =
      (SyntaxNode.addressesFrom earlier.length (loweredAll index ns)).filterMap fun address =>
        ((ParseNode.node kind span (earlier ++ ns)).at? address).bind literal?
  | [] => rfl
  | n :: ns => by
    have hlater := literalsAll_eq kind span (earlier ++ [n]) ns
    rw [List.length_append, List.length_singleton, List.append_assoc, List.singleton_append] at hlater
    rw [literalsAll, loweredAll, SyntaxNode.addressesFrom, List.filterMap_append, ← hlater,
      List.filterMap_map, literals_eq n]
    congr 2
    funext address
    simp [at?, children]

end

theorem preorder_addresses (n : ParseNode) : n.Preorder (n.lowered index).addresses := by
  refine ⟨SyntaxNode.addresses_ascend _, fun address => ?_⟩
  rw [SyntaxNode.mem_addresses_iff, at?_lowered, Option.isSome_map]

end ParseNode

/-! ### The walk -/

namespace Builder

variable (index : LineIndex)

theorem run_cons (b : Builder) (e : TreeEvent) (events : List TreeEvent) :
    b.run index (e :: events) = (b.step index e).run index events := rfl

theorem run_append (b : Builder) (before after : List TreeEvent) :
    b.run index (before ++ after) = (b.run index before).run index after := List.foldl_append

mutual

/-- The events of a node put it on the stack with all below it, note its literals, and leave it. -/
theorem run_events (b : Builder) : (n : ParseNode) →
    b.run index n.events = leave ⟨n.lowered index :: b.stack, n.literals.reverse ++ b.literals⟩
  | .node kind span children => by
    have hnoted : (literalOf kind span).toList.reverse = (literalOf kind span).toList := by
      cases literalOf kind span <;> rfl
    -- What leaving does depends on the stack below the node, so `leave` is not opened here.
    rw [ParseNode.events, run_cons, step, enter, run_append, run_eventsAll, ParseNode.lowered,
      ParseNode.literals, List.reverse_append, List.append_assoc, hnoted]
    rfl

/-- The events of several nodes add them as children to the innermost node that is open. -/
theorem run_eventsAll (kind : NodeKind) (region : Region) (earlier outer : List SyntaxNode)
    (noted : List Literal) : (ns : List ParseNode) →
      Builder.run index ⟨.node kind region earlier :: outer, noted⟩ (ParseNode.eventsAll ns) =
        ⟨.node kind region (earlier ++ ParseNode.loweredAll index ns) :: outer,
          (ParseNode.literalsAll ns).reverse ++ noted⟩
  | [] => by simp [ParseNode.eventsAll, ParseNode.loweredAll, ParseNode.literalsAll, run]
  | n :: ns => by
    rw [ParseNode.eventsAll, run_append, run_events, leave, run_eventsAll, ParseNode.loweredAll,
      ParseNode.literalsAll, List.append_assoc, List.singleton_append, List.reverse_append,
      List.append_assoc]

end

/-- The outermost node has none around it, so it stays on the stack. -/
theorem run_empty (n : ParseNode) :
    Builder.empty.run index n.events = ⟨[n.lowered index], n.literals.reverse⟩ := by
  rw [run_events]
  simp [leave, empty]

end Builder

/-- The events of a tree, taken by a builder that has entered nothing yet, leave one node on its stack,
which mirrors the tree, and the literals of the tree in preorder. -/
theorem tree_mirrored (index : LineIndex) (n : ParseNode) :
    (∃ tree, (Builder.empty.run index n.events).stack = [tree] ∧ tree.Mirrors index n) ∧
      ∃ addresses, n.Preorder addresses ∧ (Builder.empty.run index n.events).literalList =
        addresses.filterMap fun address => (n.at? address).bind ParseNode.literal? := by
  rw [Builder.run_empty]
  refine ⟨⟨n.lowered index, rfl, n.lowered_mirrors index⟩, (n.lowered index).addresses,
    n.preorder_addresses index, ?_⟩
  rw [Builder.literalList, List.reverse_reverse]
  exact n.literals_eq index

end ClosureReady
