import ClosureReady.Proofs.Boilerplate
import ClosureReady.Proofs.ClassWords
import ClosureReady.Proofs.PassFlags
import ClosureReady.Proofs.RuleReading
import ClosureReady.Proofs.TreeLowering

/-!
The report of a change is exact.  A run that reports none hands every workspace on as it was.  A run that
reports one ends with another stream than it started from: an unwrapped class loses the line of its
head, and a helper declaration the line it starts on, unless that line is kept, and then a comma of it
becomes a semicolon, which no later edit undoes.
-/

set_option autoImplicit false
set_option relaxedAutoImplicit false

namespace ClosureReady

/-! ### Nodes end where they start or later -/

namespace SyntaxNode

/-- Whether a node is a variable declaration. -/
def isDeclaration (n : SyntaxNode) : Bool :=
  match n.kind with
  | .variableDeclaration _ => true
  | _ => false

theorem isDeclaration_iff {n : SyntaxNode} :
    n.isDeclaration = true ↔ ∃ declarators, n.kind = .variableDeclaration declarators := by
  unfold isDeclaration
  cases n.kind <;> simp

end SyntaxNode

/-- A later offset is on the same line or a later one. -/
theorem LineIndex.position_line_mono (index : LineIndex) {a b : Nat} (h : a ≤ b) :
    (index.position a).line ≤ (index.position b).line := by
  have hlength : ∀ offset, (index.position offset).line =
      max 1 (index.lines.takeWhile fun line => decide (line.start ≤ offset)).length := by
    intro offset
    unfold position
    dsimp only
    cases hlast : (index.lines.takeWhile fun line => decide (line.start ≤ offset)).getLast? with
    | none =>
      rw [List.getLast?_eq_none_iff.mp hlast]
      rfl
    | some line =>
      have hne : index.lines.takeWhile (fun line => decide (line.start ≤ offset)) ≠ [] := by
        intro hnil
        simp [hnil] at hlast
      have := List.length_pos_of_ne_nil hne
      dsimp only
      omega
  have hmono : (index.lines.takeWhile fun line => decide (line.start ≤ a)).length ≤
      (index.lines.takeWhile fun line => decide (line.start ≤ b)).length := by
    induction index.lines with
    | nil => simp
    | cons line lines ih =>
      simp only [List.takeWhile_cons]
      by_cases ha : line.start ≤ a
      · have hb : line.start ≤ b := by omega
        simpa [ha, hb] using ih
      · simp [ha]
  rw [hlength, hlength]
  omega

namespace ParsedSource

private theorem parse_tree {mode : Grammar.Mode} {source : String} {p : ParsedSource}
    (h : parse mode source = .ok p) :
    ∃ outline, Grammar.outline? mode source.toList = some outline ∧
      p.tree = outline.tree.lowered (LineIndex.ofChars source.toList) := by
  unfold parse at h
  dsimp only at h
  split at h
  · simp at h
  · rename_i outline houtline
    split at h
    · simp at h
    · rename_i tree rest hstack
      split at h
      · simp at h
      · obtain rfl := Except.ok.inj h
        rw [Builder.run_empty] at hstack
        exact ⟨outline, houtline, (List.cons.inj hstack).1.symm⟩

/-- A variable declaration does not end before the line it starts on. -/
theorem declaration_lines {mode : Grammar.Mode} {source : String} {p : ParsedSource}
    (h : parse mode source = .ok p) {n : SyntaxNode} (hn : n ∈ p.tree.preorder)
    (hdeclaration : n.isDeclaration = true) : n.region.start.line ≤ n.region.stop.line := by
  obtain ⟨declarators, hkind⟩ := SyntaxNode.isDeclaration_iff.mp hdeclaration
  obtain ⟨outline, houtline, htree⟩ := parse_tree h
  obtain ⟨-, hsound⟩ := Grammar.outline?_sound houtline
  obtain ⟨kind, span, hevent, hk, hregion⟩ := outline.tree.mem_preorder_lowered _ (htree ▸ hn)
  obtain ⟨bindings, rfl, -⟩ := ParseKind.lowered_eq_variableDeclaration.mp (hk.symm.trans hkind)
  have hle : span.start ≤ span.stop := hsound _ hevent
  rw [hregion]
  exact LineIndex.position_line_mono _ hle

end ParsedSource

/-! ### Commas are never made -/

/-- Every comma of a stream was one before. -/
def CommasFrom (s s' : TokenStream) : Prop :=
  ∀ u ∈ s', u.isPunctuator "," = true → ∃ t ∈ s, t.id = u.id ∧ t.isPunctuator "," = true

theorem CommasFrom.refl (s : TokenStream) : CommasFrom s s := fun u hu hcomma => ⟨u, hu, rfl, hcomma⟩

theorem CommasFrom.trans {s s' s'' : TokenStream} (h : CommasFrom s s') (h' : CommasFrom s' s'') :
    CommasFrom s s'' := by
  intro v hv hcomma
  obtain ⟨u, hu, hid, hcomma⟩ := h' v hv hcomma
  obtain ⟨t, ht, hid', hcomma⟩ := h u hu hcomma
  exact ⟨t, ht, hid'.trans hid, hcomma⟩

/-- A comma of a stream that is none in another. -/
def CommaLost (s s' : TokenStream) : Prop :=
  ∃ t ∈ s, t.isPunctuator "," = true ∧ ∀ u ∈ s', u.id = t.id → u.isPunctuator "," = false

/-- A comma that is lost once stays so, since none is made. -/
theorem CommaLost.trans {s s' s'' : TokenStream} (h : CommaLost s s') (h' : CommasFrom s' s'') :
    CommaLost s s'' := by
  obtain ⟨t, ht, hcomma, hlost⟩ := h
  refine ⟨t, ht, hcomma, fun v hv hid => ?_⟩
  by_contra hv'
  obtain ⟨u, hu, hid', hcomma'⟩ := h' v hv (by simpa using hv')
  simp [hlost u hu (hid'.trans hid)] at hcomma'

theorem CommasFrom.lost {s s' s'' : TokenStream} (h : CommasFrom s s') (h' : CommaLost s' s'') :
    CommaLost s s'' := by
  obtain ⟨u, hu, hcomma, hlost⟩ := h'
  obtain ⟨t, ht, hid, hcomma⟩ := h u hu hcomma
  exact ⟨t, ht, hcomma, fun v hv hv' => hlost v hv (hv'.trans hid)⟩

namespace HelperDeclarations

/-- Ending a first line turns a comma into something else. -/
private theorem closeFirstLine_commas {s s' : TokenStream} {line : Nat}
    (h : closeFirstLine s line = .ok s') (hids : (s.map Token.id).Nodup) :
    CommasFrom s s' ∧ CommaLost s s' := by
  unfold closeFirstLine at h
  dsimp only at h
  split at h
  · split at h
    · rename_i t ht
      split at h
      · rename_i hcomma
        obtain rfl := Except.ok.inj h
        generalize (s.lineRange line).stop - 1 = k at ht
        have hends : ∀ v : Token, (v.withValue ";").isPunctuator "," = false := by
          intro v
          simp [Token.isPunctuator, Token.withValue]
        have horigin : ∀ u ∈ s.modify k (·.withValue ";"), ∃ j v, s[j]? = some v ∧ v.id = u.id ∧
            (u.isPunctuator "," = false ∨ j ≠ k ∧ u = v) := by
          intro u hu
          obtain ⟨j, hj⟩ := List.mem_iff_getElem?.mp hu
          rw [List.getElem?_modify] at hj
          obtain ⟨v, hv, rfl⟩ := Option.map_eq_some_iff.mp hj
          refine ⟨j, v, hv, ?_⟩
          split
          · exact ⟨rfl, Or.inl (hends v)⟩
          · rename_i hk
            exact ⟨rfl, Or.inr ⟨fun hj => hk hj.symm, rfl⟩⟩
        constructor
        · intro u hu hu'
          obtain ⟨j, v, hv, hid, hnone | ⟨-, rfl⟩⟩ := horigin u hu
          · simp [hnone] at hu'
          · exact ⟨u, List.mem_of_getElem? hv, rfl, hu'⟩
        · refine ⟨t, List.mem_of_getElem? ht, hcomma, fun u hu hid => ?_⟩
          obtain ⟨j, v, hv, hid', hnone | ⟨hne, rfl⟩⟩ := horigin u hu
          · exact hnone
          · have hj : j < (s.map Token.id).length := by
              rw [List.length_map]
              exact (List.getElem?_eq_some_iff.mp hv).1
            have hsame : (s.map Token.id)[j]? = (s.map Token.id)[k]? := by
              simp [hv, ht, hid]
            exact absurd ((List.getElem?_inj hj hids).mp hsame) hne
      · simp at h
    · simp at h
  · simp at h

private theorem markDeclaration_commas {n : SyntaxNode} {s : TokenStream} {marked : MarkedLines}
    {m : Marking} (h : markDeclaration n s marked = .ok m) (hids : (s.map Token.id).Nodup) :
    CommasFrom s m.stream ∧
      (keepsFirstLine s n.region.start.line n.region.stop.line = true → CommaLost s m.stream) := by
  unfold markDeclaration at h
  dsimp only at h
  split at h
  · split at h
    · simp at h
    · rename_i s' hclose
      obtain rfl := Except.ok.inj h
      obtain ⟨hfrom, hlost⟩ := closeFirstLine_commas hclose hids
      exact ⟨hfrom, fun _ => hlost⟩
  · rename_i hkeeps
    obtain rfl := Except.ok.inj h
    exact ⟨.refl s, fun hkeeps' => absurd hkeeps' hkeeps⟩

private theorem ids_of_reading {s s' : TokenStream} (h : s'.map readingOf = s.map readingOf) :
    s'.map Token.id = s.map Token.id := by
  have hids := congrArg (List.map fun p : Imprint × Option String => p.1.id) h
  simpa [List.map_map, Function.comp_def, readingOf] using hids

/-- A sweep makes no comma, and loses one for each declaration whose first line stays. -/
private theorem through_commas {s : Sweep} {ns : List SyntaxNode}
    (hids : (s.stream.map Token.id).Nodup) (h : (Step.through visit s ns).state.fault = none) :
    CommasFrom s.stream (Step.through visit s ns).state.stream ∧
      ∀ n ∈ ns, declaresHelper n = true →
        keepsFirstLine s.stream n.region.start.line n.region.stop.line = true →
          CommaLost s.stream (Step.through visit s ns).state.stream := by
  induction ns generalizing s with
  | nil => exact ⟨.refl _, by simp⟩
  | cons n ns ih =>
    rcases visit_cases s n with ⟨hn, hvisit⟩ | ⟨hn, fault, hvisit⟩ | ⟨hn, m, hm, hvisit⟩
    · rw [Step.through, hvisit] at h ⊢
      obtain ⟨hfrom, hlost⟩ := ih hids h
      refine ⟨hfrom, List.forall_mem_cons.mpr ⟨fun hdeclares => ?_, hlost⟩⟩
      simp [hn] at hdeclares
    · simp [Step.through, hvisit, Step.andThen, Step.state] at h
    · rw [Step.through, hvisit] at h ⊢
      obtain ⟨hreading, -⟩ := markDeclaration_ok hm
      obtain ⟨hmade, hfirst⟩ := markDeclaration_commas hm hids
      have hids' : (m.stream.map Token.id).Nodup := by rwa [ids_of_reading hreading]
      obtain ⟨hfrom, hlost⟩ := ih (s := ⟨m.stream, m.marked, true, _, s.fault⟩) hids' h
      refine ⟨hmade.trans hfrom, List.forall_mem_cons.mpr ⟨fun _ hkeeps => ?_, fun k hk hd hkeeps => ?_⟩⟩
      · exact (hfirst hkeeps).trans hfrom
      · exact hmade.lost (hlost k hk hd (by rwa [keepsFirstLine_congr hreading]))

theorem run_commas {w : Workspace} {r : PassResult} (h : (run w).outcome = .ok r)
    (hids : (w.stream.map Token.id).Nodup) {n : SyntaxNode} (hn : n ∈ w.tree.preorder)
    (hdeclares : declaresHelper n = true)
    (hkeeps : keepsFirstLine w.stream n.region.start.line n.region.stop.line = true) :
    CommaLost w.stream r.workspace.stream := by
  unfold run at h
  dsimp only at h
  rw [SyntaxNode.walk_eq_through] at h
  split at h
  · simp at h
  · rename_i hfault
    obtain rfl := Except.ok.inj h
    exact (through_commas hids hfault).2 n hn hdeclares hkeeps

end HelperDeclarations

namespace ClassWrapper

private theorem headText_ne_comma (x : Unwrapping) : x.headText ≠ "," := by
  intro h
  have hlast := congrArg (fun text => text.toList.getLast?) h
  simp [Unwrapping.headText] at hlast

theorem Unwrapping.Turns.comma {x : Unwrapping} {t u : Token} (h : x.Turns t u)
    (hu : u.isPunctuator "," = true) : t.isPunctuator "," = true := by
  simp only [Token.isPunctuator, Bool.and_eq_true, beq_iff_eq] at hu ⊢
  have hkind : t.kind = .punctuator := h.kind_eq.symm.trans hu.1
  refine ⟨hkind, ?_⟩
  obtain ⟨v, hv, hadapted⟩ := h.value
  have hvalue : v = "," := by
    rcases hadapted with ⟨-, before, hbefore⟩ | ⟨-, hsame⟩
    · rw [adaptToken_value_of_kind _ _ before (by simp [hkind]) (by simp [hkind])] at hbefore
      exact hbefore.symm.trans hu.2
    · exact hsame.symm.trans hu.2
  rcases hv with hv | ⟨-, hv | hv⟩
  · exact hv.symm.trans hvalue
  · exact absurd (hv.symm.trans hvalue) (headText_ne_comma x)
  · exact absurd (hv.symm.trans hvalue) (by decide)

theorem TurnsThrough.comma {xs : List Unwrapping} {t u : Token} (h : TurnsThrough xs t u)
    (hu : u.isPunctuator "," = true) : t.isPunctuator "," = true := by
  induction h with
  | nil t => exact hu
  | cons hturns _ ih => exact hturns.comma (ih hu)

end ClassWrapper

theorem HelperUses.Resolves.comma {t u : Token} (h : HelperUses.Resolves t u)
    (hu : u.isPunctuator "," = true) : t.isPunctuator "," = true := by
  cases h with
  | kept _ => exact hu
  | blanked => simp [Token.isPunctuator, Token.withValue] at hu
  | replaced _ => simp [Token.isPunctuator, HelperUses.resolve] at hu

namespace FixRun

variable {mode : Grammar.Mode} {source : String}

/-- The passes after the first make no comma. -/
theorem final_commas (run : FixRun mode source) :
    CommasFrom run.declarationsMarked.workspace.stream run.final.stream := by
  intro u hu hcomma
  obtain ⟨i, hi, rfl⟩ := List.mem_iff_getElem.mp hu
  obtain ⟨hlength, hget⟩ := List.forall₂_iff_get.mp run.kept_resolves
  have hi' : i < run.kept.length := hlength ▸ hi
  have hresolves : HelperUses.Resolves run.kept[i] run.final.stream[i] := hget i hi' hi
  have hkept : run.kept[i] ∈ run.unwrapped := by
    have hmem : run.kept[i] ∈ MarkedLineRemoval.keep run.final.marked run.unwrapped :=
      run.kept_eq ▸ List.getElem_mem hi'
    exact List.mem_of_mem_filter hmem
  obtain ⟨t, ht, hturns⟩ := run.unwrapped_turns hkept
  exact ⟨t, ht, hturns.id_eq.symm.trans hresolves.id_eq.symm, hturns.comma (hresolves.comma hcomma)⟩

/-- Where the stream ends as it started, no line of it is marked. -/
private theorem not_marked (run : FixRun mode source) (hsame : run.final.stream = run.prepared)
    {t : Token} (ht : t ∈ run.prepared) : run.final.marked.contains t.line = false := by
  by_contra hmarked
  exact (run.missing_iff ht).mpr (Or.inl (by simpa using hmarked)) t (hsame ▸ ht) rfl

private theorem no_declaration (run : FixRun mode source) (hsame : run.final.stream = run.prepared)
    (hstarts : ∀ n ∈ run.parsed.tree.preorder, n.isDeclaration = true →
      ∃ t ∈ run.prepared, t.region.start = n.region.start) :
    ∀ n ∈ run.parsed.tree.preorder, HelperDeclarations.declaresHelper n = false := by
  intro n hn
  by_contra hdeclares
  replace hdeclares : HelperDeclarations.declaresHelper n = true := by simpa using hdeclares
  have hdeclaration : n.isDeclaration = true := by
    unfold HelperDeclarations.declaresHelper SyntaxNode.declaredNames at hdeclares
    split at hdeclares
    · rename_i declarators hkind
      exact SyntaxNode.isDeclaration_iff.mpr ⟨declarators, hkind⟩
    · simp at hdeclares
  obtain ⟨t, ht, hstart⟩ := hstarts n hn hdeclaration
  cases hkeeps : HelperDeclarations.keepsFirstLine run.prepared n.region.start.line
      n.region.stop.line with
  | true =>
    -- A comma of the first line is gone, and so it would be from the source.
    obtain ⟨c, hc, hcomma, hlost⟩ := (HelperDeclarations.run_commas run.declarations_eq
      (ParsedSource.stream_ids_nodup run.parse_eq) hn hdeclares hkeeps).trans run.final_commas
    have hnone := hlost c (by rw [hsame]; exact hc) rfl
    simp [hnone] at hcomma
  | false =>
    -- The line of the token it starts with is marked.
    have hline : t.line = n.region.start.line := congrArg Position.line hstart
    have hfirst : HelperDeclarations.firstLine run.prepared n = t.line := by
      rw [HelperDeclarations.firstLine, hkeeps, hline]
      rfl
    have hmarked := (run.final_marked_iff t.line).mpr (Or.inl ⟨n, hn, hdeclares, run.line_pos ht,
      hfirst.le, hline ▸ ParsedSource.declaration_lines run.parse_eq hn hdeclaration⟩)
    simp [run.not_marked hsame ht] at hmarked

private theorem no_class (run : FixRun mode source) (hsame : run.final.stream = run.prepared) :
    run.classes = [] := by
  refine List.eq_nil_iff_forall_not_mem.mpr fun x hx => ?_
  obtain ⟨hrecord, -⟩ := ClassWrapper.mem_unwrappings hx
  obtain ⟨-, -, -, -, hhead, -⟩ := ClassWrapper.unwrapping?_eq_some hrecord
  obtain ⟨v, hv, hline⟩ := Option.map_eq_some_iff.mp hhead
  have himprint := ClassWrapper.unwrappings_imprints hx (List.mem_map_of_mem (List.mem_of_getElem? hv))
  rw [(HelperDeclarations.run_ok run.declarations_eq).1] at himprint
  obtain ⟨t, ht, heq⟩ := List.mem_map.mp himprint
  have htline : t.line = x.headLine := (congrArg Imprint.line heq).trans hline
  have hmarked := (run.final_marked_iff t.line).mpr
    (Or.inr ⟨x, hx, run.line_pos ht, Or.inl htline⟩)
  simp [run.not_marked hsame ht] at hmarked

/-- Without a helper declaration and without a class the first three passes do nothing. -/
private theorem untouched (run : FixRun mode source)
    (hnone : ∀ n ∈ run.parsed.tree.preorder, HelperDeclarations.declaresHelper n = false)
    (hclasses : run.classes = []) :
    run.declarationsMarked = ⟨.start run.parsed.tree run.parsed.stream, false⟩ ∧
      run.classesUnwrapped = ⟨.start run.parsed.tree run.parsed.stream, false⟩ ∧
      run.linesRemoved = ⟨.start run.parsed.tree run.parsed.stream, false⟩ := by
  have hfirst := Except.ok.inj (run.declarations_eq.symm.trans (HelperDeclarations.run_of_none hnone))
  have hsecond : run.classesUnwrapped = ⟨.start run.parsed.tree run.parsed.stream, false⟩ := by
    rcases ClassWrapper.run_modified run.classes_eq with ⟨-, hsame⟩ | ⟨hsome, -⟩
    · rw [hsame, hfirst]
    · exact absurd hclasses hsome
  have hthird := Except.ok.inj (run.lines_eq.symm.trans
    (MarkedLineRemoval.run_of_isEmpty (by rw [hsecond]; rfl)))
  exact ⟨hfirst, hsecond, by rw [hthird, hsecond]⟩

private theorem final_of_not_modified (run : FixRun mode source) (h : run.modified = false) :
    run.final = .start run.parsed.tree run.parsed.stream := by
  simp only [FixRun.modified, Bool.or_eq_false_iff] at h
  obtain ⟨⟨⟨hfirst, hsecond⟩, -⟩, hfourth⟩ := h
  have hnone : ∀ n ∈ run.parsed.tree.preorder, HelperDeclarations.declaresHelper n = false := by
    intro n hn
    by_contra hdeclares
    have hmodified := (HelperDeclarations.run_modified_iff run.declarations_eq).mpr
      ⟨n, hn, by simpa using hdeclares⟩
    simp [hfirst] at hmodified
  have hclasses : run.classes = [] := by
    rcases ClassWrapper.run_modified run.classes_eq with ⟨hnil, -⟩ | ⟨-, hmodified⟩
    · exact hnil
    · simp [hsecond] at hmodified
  obtain ⟨-, -, hlines⟩ := run.untouched hnone hclasses
  have hlast := HelperUses.run_of_not_modified run.uses_eq hfourth
  rw [final, hlast, hlines]

private theorem not_modified_of_final (run : FixRun mode source)
    (hsame : run.final.stream = run.prepared)
    (hstarts : ∀ n ∈ run.parsed.tree.preorder, n.isDeclaration = true →
      ∃ t ∈ run.prepared, t.region.start = n.region.start) : run.modified = false := by
  obtain ⟨hfirst, hsecond, hthird⟩ :=
    run.untouched (run.no_declaration hsame hstarts) (run.no_class hsame)
  have hfourth : run.helpersResolved.modified = false := by
    by_contra hmodified
    obtain ⟨t, ht, u, hu, hid, hkind, hresolved⟩ :=
      HelperUses.run_of_modified run.uses_eq (by simpa using hmodified)
    rw [hthird] at ht
    have hu' : u ∈ run.prepared := hsame ▸ hu
    rw [run.prepared_eq_of_id_eq hu' ht hid, hkind] at hresolved
    simp at hresolved
  simp [FixRun.modified, hfirst, hsecond, hthird, hfourth]

end FixRun

/-- Where every variable declaration starts with a token, a change is reported exactly when the stream
ends otherwise than it started; and what is not changed is printed as it was read. -/
theorem change_reported_iff {options : FixOptions} {source : String} {parsed : ParsedSource}
    {result : FixResult} (hparse : ParsedSource.parse options.mode source = .ok parsed)
    (hkept : isLeftAlone parsed.tokens = false)
    (hfix : (fix options source).outcome = .ok result)
    (hstarts : ∀ n ∈ parsed.tree.preorder, n.isDeclaration = true →
      ∃ t ∈ parsed.stream, t.region.start = n.region.start) :
    ∃ run : FixRun options.mode source, run.parsed = parsed ∧
      (result.modified = false ↔ run.final.stream = parsed.stream) ∧
      (result.modified = false → result.requiresArrayLibrary = false ∧
        result.code = (if options.header then generatedByBanner ++ "\n" else "") ++
          (if source.toList.getLast? = some '\n' ∧ parsed.stream.print ≠ "" then
            parsed.stream.print ++ "\n" else parsed.stream.print)) := by
  obtain ⟨run, rfl, rfl⟩ := (fix_ok_iff hparse hkept).mp hfix
  refine ⟨run, rfl, ⟨fun h => ?_, fun h => run.not_modified_of_final h hstarts⟩, fun h => ?_⟩
  · rw [run.final_of_not_modified h]
    rfl
  · simp only [run.final_of_not_modified h]
    refine ⟨rfl, ?_⟩
    unfold assemble
    simp only [Workspace.start, Bool.false_eq_true, if_false]
    cases options.header with
    | false =>
      simp only [Bool.false_eq_true, if_false, String.empty_append]
      exact if_congr Iff.rfl rfl rfl
    | true =>
      simp only [if_true]
      exact congrArg _ (if_congr Iff.rfl rfl rfl)

/-- A declaration whose first line stays is reported as a change, and the stream is another one. -/
theorem change_reported_first_line :
    ∃ result, (fix ⟨true, .script⟩ "var a,\n  __slice = [].slice;\n").outcome = .ok result ∧
      result.modified = true ∧
      ∃ run : FixRun .script "var a,\n  __slice = [].slice;\n",
        run.final.stream ≠ run.parsed.stream := by
  have hrun : ((FixRun.of? .script "var a,\n  __slice = [].slice;\n").any fun run => decide
      (run.modified = true ∧ ∀ n ∈ run.parsed.tree.preorder, n.isDeclaration = true →
        ∃ t ∈ run.parsed.stream, t.region.start = n.region.start)) = true := by
    decide +kernel
  obtain ⟨run, -, hrun⟩ := (Option.any_eq_true _ _).mp hrun
  obtain ⟨hmodified, hstarts⟩ := of_decide_eq_true hrun
  obtain ⟨run', hparsed, hiff, -⟩ := @change_reported_iff ⟨true, .script⟩ _ _ _ run.parse_eq
    run.not_leftAlone (run.fix_eq true) hstarts
  refine ⟨_, run.fix_eq true, hmodified, run', fun hsame => ?_⟩
  have hnone := hiff.mpr (hsame.trans (congrArg ParsedSource.stream hparsed))
  exact Bool.false_ne_true (hnone.symm.trans hmodified)

end ClosureReady
