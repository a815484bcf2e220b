import SchemaDoc.Parser.InPlace
import SchemaDoc.Proofs.TokenReading

/-! The productions in place and the productions of the grammar are the same. What finds nothing in place
has changed nothing, so it does not matter that the next alternative starts from what it left, and a parser
may be run on problems of its own or not. -/

namespace SchemaDoc

def Production.inPlace (production : Production) : SubParser := do
  let before ← get
  match production before.cursor with
  | none => return none
  | some parsed =>
    set (⟨parsed.next, before.errors ++ parsed.errors⟩ : ParserState)
    return some parsed.node

def Fragment.inPlace (read : Cursor → Fragment) : StateM ParserState (List Node) := do
  let before ← get
  let fragment := read before.cursor
  set (⟨fragment.next, before.errors ++ fragment.errors⟩ : ParserState)
  return fragment.nodes

section Runs

variable {state : ParserState}

theorem Production.run_inPlace_none {production : Production} (nothing : production state.cursor = none) :
    production.inPlace.run state = pure (none, state) := by
  simp [inPlace, nothing]

theorem Production.run_inPlace_some {production : Production} {parsed : Parsed}
    (found : production state.cursor = some parsed) :
    production.inPlace.run state =
      pure (some parsed.node, ⟨parsed.next, state.errors ++ parsed.errors⟩) := by
  simp [inPlace, found]

theorem Production.run_inPlace_congr {production other : Production}
    (same : production state.cursor = other state.cursor) :
    production.inPlace.run state = other.inPlace.run state := by
  simp [inPlace, same]

theorem Production.of_run_inPlace_none {production : Production} {after : ParserState}
    (ran : production.inPlace.run state = (none, after)) : after = state := by
  cases result : production state.cursor with
  | none =>
    rw [run_inPlace_none result] at ran
    cases ran
    rfl
  | some parsed =>
    rw [run_inPlace_some result] at ran
    cases ran

theorem Production.of_run_inPlace_some {production : Production} {node : Node} {after : ParserState}
    (ran : production.inPlace.run state = (some node, after)) :
    ∃ parsed, production state.cursor = some parsed ∧ node = parsed.node ∧ after.cursor = parsed.next := by
  cases result : production state.cursor with
  | none =>
    rw [run_inPlace_none result] at ran
    cases ran
  | some parsed =>
    rw [run_inPlace_some result] at ran
    cases ran
    exact ⟨parsed, rfl, rfl, rfl⟩

@[simp] theorem Fragment.run_inPlace (read : Cursor → Fragment) :
    (inPlace read).run state =
      pure ((read state.cursor).nodes, ⟨(read state.cursor).next,
        state.errors ++ (read state.cursor).errors⟩) := by
  simp [inPlace]

namespace InPlace

@[simp] theorem run_place : place.run state = pure (state.cursor, state) := by
  simp [place]

@[simp] theorem run_moveTo (cursor : Cursor) :
    (moveTo cursor).run state = pure ((), { state with cursor }) := by
  simp [moveTo]

@[simp] theorem run_report (problem : Diagnostic) :
    (report problem).run state = pure ((), { state with errors := state.errors ++ [problem] }) := by
  simp [report]

@[simp] theorem run_take {α : Type} (read : Cursor → α × Cursor) :
    (take read).run state =
      pure ((read state.cursor).1, { state with cursor := (read state.cursor).2 }) := by
  simp [take]

@[simp] theorem run_skipTrivia :
    skipTrivia.run state = pure ((), { state with cursor := state.cursor.skipTrivia }) := by
  simp [skipTrivia]

theorem run_takeSpan_none {read : Cursor → Option Cursor} (fails : read state.cursor = none) :
    (takeSpan read).run state = pure (none, state) := by
  simp [takeSpan, fails]

theorem run_takeSpan_some {read : Cursor → Option Cursor} {next : Cursor}
    (reads : read state.cursor = some next) :
    (takeSpan read).run state =
      pure (some (state.cursor.spanTo next), { state with cursor := next }) := by
  simp [takeSpan, reads]

theorem run_keyword_none {word : String} (unread : state.cursor.readKeyword? word = none) :
    (keyword word).run state = pure (none, state) := run_takeSpan_none unread

theorem run_keyword_some {word : String} {next : Cursor} (read : state.cursor.readKeyword? word = some next) :
    (keyword word).run state =
      pure (some (state.cursor.spanTo next), { state with cursor := next }) := run_takeSpan_some read

theorem run_token_none {word : String} (unread : state.cursor.read? word = none) :
    (token word).run state = pure (none, state) := run_takeSpan_none unread

theorem run_token_some {word : String} {next : Cursor} (read : state.cursor.read? word = some next) :
    (token word).run state =
      pure (some (state.cursor.spanTo next), { state with cursor := next }) := run_takeSpan_some read

end InPlace

end Runs

namespace InPlace

/-- A production adds its problems behind those that are there, and without a node it adds none. -/
theorem attempt_inPlace (production : Production) : attempt production.inPlace = production.inPlace := by
  refine StateT.ext fun state => ?_
  cases found : production state.cursor with
  | none => simp [attempt, Production.inPlace, found]
  | some parsed => simp [attempt, Production.inPlace, found]

/-- The second alternative starts where the first one was tried. -/
theorem orElse_inPlace (first second : Production) :
    orElse first.inPlace second.inPlace = (Production.orElse first second).inPlace := by
  refine StateT.ext fun state => ?_
  cases found : first state.cursor with
  | none =>
    have same : Production.orElse first second state.cursor = second state.cursor := by
      simp [Production.orElse, found]
    simp [orElse, Production.run_inPlace_none found, Production.run_inPlace_congr same]
  | some parsed =>
    have same : Production.orElse first second state.cursor = some parsed := by
      simp [Production.orElse, found]
    simp [orElse, Production.run_inPlace_some found, Production.run_inPlace_some same]

theorem wrapped_inPlace (kind : Node.Kind) (role : Node.Role) (production : Production) :
    wrapped kind role production.inPlace =
      Production.inPlace fun cursor => (production cursor).map (Parser.wrap kind role) := by
  refine StateT.ext fun state => ?_
  cases found : production state.cursor with
  | none => simp [wrapped, Production.inPlace, found]
  | some parsed => simp [wrapped, Production.inPlace, Parser.wrap, found]

theorem identifier_eq : identifier = Parser.identifier.inPlace := by
  refine StateT.ext fun state => ?_
  cases read : state.cursor.readIdentifier? with
  | none => simp [identifier, Production.inPlace, Parser.identifier, read]
  | some found => simp [identifier, Production.inPlace, Parser.identifier, Parser.leaf, read]

theorem string_eq : string = Parser.string.inPlace := by
  refine StateT.ext fun state => ?_
  cases read : state.cursor.read? "\"" with
  | none => simp [string, run_token_none read, Production.inPlace, Parser.string, read]
  | some opened =>
    have size : opened.size = state.cursor.size := (Cursor.read?_reads read).size
    cases ends : (Parser.stringBody [] opened.offset opened.rest).isTerminated <;>
      simp [string, stringBody, run_token_some read, Production.inPlace, Parser.string, Parser.leaf, read, ends, size]

theorem number_eq : number = Parser.number.inPlace := by
  refine StateT.ext fun state => ?_
  have sign : (token "-").run state =
      pure ((state.cursor.read? "-").map state.cursor.spanTo,
        { state with cursor := (state.cursor.read? "-").getD state.cursor }) := by
    cases read : state.cursor.read? "-" with
    | none => simpa using run_token_none read
    | some unsigned => simpa using run_token_some read
  by_cases none : (((state.cursor.read? "-").getD state.cursor).readWhile Char.isDigit).1 = []
  · simp [number, readWhile, sign, none, Production.inPlace, Parser.number]
  · simp [number, readWhile, sign, Cursor.isSome_read?, none, Production.inPlace, Parser.number, Parser.leaf]

theorem truth_eq (word : String) (value : Bool) :
    truth word value = Production.inPlace fun cursor =>
      (cursor.readKeyword? word).map fun next => Parser.leaf (.boolean value) cursor next := by
  refine StateT.ext fun state => ?_
  cases read : state.cursor.readKeyword? word with
  | none => simp [truth, run_keyword_none read, Production.inPlace, read]
  | some next => simp [truth, run_keyword_some read, Production.inPlace, Parser.leaf, read]

theorem boolean_eq : boolean = Parser.boolean.inPlace := by
  rw [boolean, truth_eq, truth_eq, orElse_inPlace]
  congr 1
  funext cursor
  cases read : cursor.readKeyword? "true" <;> simp [Production.orElse, Parser.boolean, read]

theorem literal_eq : literal = Parser.literal.inPlace := by
  rw [literal, string_eq, number_eq, boolean_eq, orElse_inPlace, orElse_inPlace]
  rfl

theorem fieldKey_eq : fieldKey = Parser.fieldKey.inPlace := by
  rw [fieldKey, identifier_eq, string_eq, orElse_inPlace]
  rfl

theorem resourceLocation_eq : resourceLocation = Parser.resourceLocation.inPlace := by
  refine StateT.ext fun state => ?_
  by_cases none : (state.cursor.readWhile Parser.isResourceChar).1 = []
  · have stays : (state.cursor.readWhile Parser.isResourceChar).2 = state.cursor := by
      have reads := state.cursor.readWhile_reads Parser.isResourceChar
      rw [none] at reads
      exact reads.eq_of_nil
    simp [resourceLocation, readWhile, none, stays, Production.inPlace, Parser.resourceLocation]
  · simp [resourceLocation, readWhile, none, Production.inPlace, Parser.resourceLocation, Parser.leaf]

theorem moreSegments_eq (fuel : Nat) : moreSegments fuel = Fragment.inPlace (Parser.moreSegments fuel) := by
  induction fuel with
  | zero =>
    refine StateT.ext fun state => ?_
    simp [moreSegments, Parser.moreSegments, Fragment.empty]
  | succ fuel ih =>
    refine StateT.ext fun state => ?_
    cases read : state.cursor.read? Parser.pathSeparator with
    | none => simp [moreSegments, Parser.moreSegments, run_token_none read, read, Fragment.empty]
    | some next =>
      cases found : Parser.identifier next with
      | none =>
        simp [moreSegments, Parser.moreSegments, run_token_some read, read, identifier_eq, Production.inPlace, found,
          Fragment.missing]
      | some segment =>
        simp [moreSegments, Parser.moreSegments, run_token_some read, read, identifier_eq, Production.inPlace, found,
          ih, Fragment.andThen]

/-- Behind a separator the path is there in any case, be it without segments. -/
theorem run_segments_rooted {state : ParserState} :
    (segments true).run state =
      (some <$> Fragment.inPlace fun cursor =>
        (Parser.segments cursor).getD (.missing .expectedIdentifier [] cursor)).run state := by
  cases found : Parser.identifier state.cursor with
  | none =>
    simp [segments, identifier_eq, Production.run_inPlace_none found, Parser.segments, found, Fragment.missing]
  | some segment =>
    simp [segments, identifier_eq, Production.run_inPlace_some found, Parser.segments, found, moreSegments_eq,
      Fragment.andThen]

theorem run_segments_none {state : ParserState} (nothing : Parser.segments state.cursor = none) :
    (segments false).run state = pure (none, state) := by
  have missing : Parser.identifier state.cursor = none := Option.map_eq_none_iff.mp nothing
  simp [segments, identifier_eq, Production.run_inPlace_none missing]

theorem run_segments_some {state : ParserState} {fragment : Fragment}
    (found : Parser.segments state.cursor = some fragment) :
    (segments false).run state =
      pure (some fragment.nodes, ⟨fragment.next, state.errors ++ fragment.errors⟩) := by
  obtain ⟨segment, first, rfl⟩ := Option.map_eq_some_iff.mp found
  simp [segments, identifier_eq, Production.run_inPlace_some first, moreSegments_eq, Fragment.andThen]

theorem identPath_eq : identPath = Parser.identPath.inPlace := by
  refine StateT.ext fun state => ?_
  cases read : state.cursor.read? Parser.pathSeparator with
  | some next =>
    simp [identPath, run_token_some read, run_segments_rooted, Production.inPlace, Parser.identPath, read]
  | none =>
    cases found : Parser.segments state.cursor with
    | none =>
      simp [identPath, run_token_none read, run_segments_none found, Production.inPlace, Parser.identPath, read, found]
    | some fragment =>
      simp [identPath, run_token_none read, run_segments_some found, Production.inPlace, Parser.identPath, read, found]

theorem listItem_inPlace (item : Production) :
    listItem item.inPlace = Fragment.inPlace (Fragment.required item .type .expectedType) := by
  refine StateT.ext fun state => ?_
  cases found : item state.cursor with
  | none =>
    simp [listItem, attempt_inPlace, Production.run_inPlace_none found, Fragment.required, found, Fragment.missing]
  | some parsed =>
    simp [listItem, attempt_inPlace, Production.run_inPlace_some found, Fragment.required, found, Fragment.ofParsed]

theorem run_listType (item : Production) (start : Cursor) (state : ParserState) :
    (listType item.inPlace start).run state =
      pure ((Parser.listType item start state.cursor).node,
        ⟨(Parser.listType item start state.cursor).next,
          state.errors ++ (Parser.listType item start state.cursor).errors⟩) := by
  let inner := Fragment.required item .type .expectedType state.cursor.skipTrivia
  cases closes : inner.next.skipTrivia.read? "]" with
  | none =>
    simp [listType, listItem_inPlace, Parser.listType, run_token_none, closes, Fragment.skipTrivia, inner]
  | some closed =>
    simp [listType, listItem_inPlace, Parser.listType, run_token_some, closes, Fragment.skipTrivia, inner,
      Cursor.spanTo]

theorem primitiveType_eq : primitiveType = Parser.primitiveType.inPlace := by
  refine StateT.ext fun state => ?_
  cases known : Primitive.ofName? (String.ofList state.cursor.word) with
  | none => simp [primitiveType, Production.inPlace, Parser.primitiveType, known]
  | some primitive => simp [primitiveType, Production.inPlace, Parser.primitiveType, Parser.leaf, known]

theorem primaryType_inPlace (item : Production) :
    primaryType item.inPlace = (Parser.primaryType item).inPlace := by
  refine StateT.ext fun state => ?_
  cases read : state.cursor.read? "[" with
  | some opened =>
    have found : Parser.primaryType item state.cursor = some (Parser.listType item state.cursor opened) := by
      simp [Parser.primaryType, read]
    simp [primaryType, run_token_some read, run_listType, Production.run_inPlace_some found]
  | none =>
    let reference : Production := fun cursor => (Parser.identPath cursor).map (Parser.wrap .referenceType .path)
    let value : Production := fun cursor => (Parser.literal cursor).map (Parser.wrap .literalType .value)
    have same : Parser.primaryType item state.cursor =
        Production.orElse value (Production.orElse Parser.primitiveType reference) state.cursor := by
      simp only [Parser.primaryType, read]
      rfl
    simp [primaryType, run_token_none read, literal_eq, primitiveType_eq, identPath_eq, wrapped_inPlace,
      orElse_inPlace, Production.run_inPlace_congr same, value, reference]

private theorem run_marks {marks rest : List Char} {fuel : Nat} {node : Node} {state : ParserState}
    (split : state.cursor.rest = marks ++ rest) (isMark : ∀ char ∈ marks, char = '?')
    (stops : rest.head? ≠ some '?') (enough : marks.length ≤ fuel) :
    (optionalTypes fuel node).run state =
      pure (Parser.optionalTypes node state.cursor.offset marks,
        { state with cursor := state.cursor.moveTo marks rest }) := by
  induction marks generalizing fuel node state with
  | nil =>
    have stays : state.cursor.moveTo [] rest = state.cursor := Cursor.moveTo_nil split
    cases fuel with
    | zero => simp [optionalTypes, Parser.optionalTypes, stays]
    | succ fuel =>
      have unread : state.cursor.read? "?" = none := Cursor.read?_eq_none rfl (by rwa [split])
      simp [optionalTypes, Parser.optionalTypes, stays, run_token_none unread]
  | cons mark marks ih =>
    obtain rfl := isMark mark (by simp)
    cases fuel with
    | zero => simp at enough
    | succ fuel =>
      let next := state.cursor.moveTo ['?'] (marks ++ rest)
      have read : state.cursor.read? "?" = some next := Cursor.read?_of_rest split
      have moved : next.offset = state.cursor.offset + 1 := rfl
      have onward : next.moveTo marks rest = state.cursor.moveTo ('?' :: marks) rest := Cursor.moveTo_moveTo ..
      have more : ∀ char ∈ marks, char = '?' := fun char member => isMark char (List.mem_cons_of_mem _ member)
      have less : marks.length ≤ fuel := by simpa using enough
      have again (outer : Node) : (optionalTypes fuel outer).run { state with cursor := next } =
          pure (Parser.optionalTypes outer next.offset marks, { state with cursor := next.moveTo marks rest }) :=
        ih rfl more less
      simp only [moved, onward] at again
      simp [optionalTypes, Parser.optionalTypes, run_token_some read, again, Cursor.spanTo, moved]

def marked (primary : Parsed) : Parsed :=
  { primary with
    node := Parser.optionalTypes primary.node primary.next.offset (primary.next.readWhile (· == '?')).1
    next := (primary.next.readWhile (· == '?')).2 }

theorem run_optionalTypes (primary : Parsed) (errors : List Diagnostic) :
    (optionalTypes primary.next.rest.length primary.node).run ⟨primary.next, errors⟩ =
      pure ((marked primary).node, ⟨(marked primary).next, errors⟩) := by
  let marks := primary.next.rest.takeWhile (· == '?')
  let rest := primary.next.rest.dropWhile (· == '?')
  have split : primary.next.rest = marks ++ rest := List.takeWhile_append_dropWhile.symm
  have isMark : ∀ char ∈ marks, char = '?' := fun char member => by simpa using List.mem_takeWhile_imp member
  have stops : rest.head? ≠ some '?' := by
    intro another
    have first := List.head?_dropWhile_not (· == '?') primary.next.rest
    simp [show primary.next.rest.dropWhile (· == '?') = rest from rfl, another] at first
  have enough : marks.length ≤ primary.next.rest.length := by simp [split]
  have read : primary.next.readWhile (· == '?') = (marks, primary.next.moveTo marks rest) := by
    simp only [Cursor.readWhile, List.span_eq_takeWhile_dropWhile, marks, rest]
  rw [marked, read]
  exact run_marks split isMark stops enough

theorem typeOf_inPlace (item : Production) :
    typeOf item.inPlace = Production.inPlace fun cursor => (Parser.primaryType item cursor).map marked := by
  refine StateT.ext fun state => ?_
  let type : Production := fun cursor => (Parser.primaryType item cursor).map marked
  cases found : Parser.primaryType item state.cursor with
  | none =>
    have nothing : type state.cursor = none := by simp [type, found]
    simp [typeOf, primaryType_inPlace, Production.run_inPlace_none found, Production.run_inPlace_none nothing, type]
  | some primary =>
    have outer : type state.cursor = some (marked primary) := by simp [type, found]
    rw [Production.run_inPlace_some outer]
    simp [typeOf, primaryType_inPlace, Production.run_inPlace_some found, run_optionalTypes, marked]

theorem typeWithin_eq (depth : Nat) : typeWithin depth = (Parser.typeWithin depth).inPlace := by
  induction depth with
  | zero =>
    refine StateT.ext fun state => ?_
    simp [typeWithin, Parser.typeWithin, Production.inPlace]
  | succ depth ih =>
    rw [typeWithin, ih, typeOf_inPlace]
    rfl

theorem typeExpr_eq : typeExpr = Parser.typeExpr.inPlace := by
  refine StateT.ext fun state => ?_
  simp [typeExpr, typeWithin_eq, Parser.typeExpr, Production.inPlace]

/-- What reads the item of a list is asked behind the bracket and nowhere else. -/
private theorem primaryType_congr {item other : Production} {cursor : Cursor}
    (same : ∀ opened, cursor.read? "[" = some opened → item opened.skipTrivia = other opened.skipTrivia) :
    Parser.primaryType item cursor = Parser.primaryType other cursor := by
  unfold Parser.primaryType
  cases read : cursor.read? "[" with
  | none => rfl
  | some opened => simp only [Parser.listType, Fragment.required, same opened read]

/-- A bound is enough if it is more than the bytes ahead. -/
private theorem typeWithin_congr {depth more : Nat} {cursor : Cursor} (enough : byteLength cursor.rest < depth)
    (also : byteLength cursor.rest < more) : Parser.typeWithin depth cursor = Parser.typeWithin more cursor := by
  induction depth generalizing more cursor with
  | zero => exact absurd enough (Nat.not_lt_zero _)
  | succ depth ih =>
    obtain ⟨more, rfl⟩ := Nat.exists_eq_add_one.mpr (Nat.zero_lt_of_lt also)
    have primary : Parser.primaryType (Parser.typeWithin depth) cursor =
        Parser.primaryType (Parser.typeWithin more) cursor := by
      refine primaryType_congr fun opened read => ?_
      have bracket := (Cursor.read?_reads read).offset_lt (by decide)
      have ahead := Cursor.offset_le opened.le_skipTrivia
      have left := Cursor.offset_add_rest ((Cursor.read?_le read).trans opened.le_skipTrivia)
      exact ih (by omega) (by omega)
    simp only [Parser.typeWithin, primary]

/-- The bound is never met: a type reads its items as types. -/
theorem run_typeExpr {state : ParserState} (whole : state.cursor.Whole) :
    typeExpr.run state = (typeOf typeExpr).run state := by
  rw [typeExpr_eq, typeOf_inPlace]
  refine Production.run_inPlace_congr ?_
  obtain ⟨depth, enough⟩ : ∃ depth, state.cursor.remaining = depth + 1 := ⟨_, rfl⟩
  have bound := whole.enough
  have primary : Parser.primaryType (Parser.typeWithin depth) state.cursor =
      Parser.primaryType Parser.typeExpr state.cursor := by
    refine primaryType_congr fun opened read => ?_
    have bracket := (Cursor.read?_reads read).offset_lt (by decide)
    have ahead := Cursor.offset_le opened.le_skipTrivia
    have onward := (Cursor.read?_le read).trans opened.le_skipTrivia
    have left := Cursor.offset_add_rest onward
    exact typeWithin_congr (by omega) (whole.later onward).enough
  rw [← primary, Parser.typeExpr, enough]
  rfl

end InPlace

end SchemaDoc
