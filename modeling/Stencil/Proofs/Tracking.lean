import Stencil.Calling
import Stencil.Proofs.Ensuring
import Stencil.Proofs.Renaming.Settling
import Stencil.Proofs.Tracking.Counting
import Stencil.Proofs.Tracking.Machine

/-!
# The positions of loops

While a template runs, `loop` is the position of the innermost loop around, and the parent of a
position is that of the next loop further out. The stack of loops is kept in order by every
instruction, however it ends, so at each point it holds exactly the loops around, each with the
number of its pass; and what `loop` and its parents tell is what the stack holds.

A function that is called starts with no loop. A loop over items counts as one when it is written as
a directive; the loops of code blocks, and loops that test a condition, are not seen.

## Main results

* `showsLoops`: what `loop` and its parents tell in a scene.
* `loop_positions_are_exact`: the stack, and what `loop` tells, throughout an execution.
-/

namespace Stencil

/-! ## What is told -/

/-- The expression for the position of the loop so many loops further out than the innermost one. -/
def Expr.loopAbove : Nat → Expr
  | 0 => .name "loop"
  | levels + 1 => .attribute (loopAbove levels) "parent"

section Telling

variable (services : Services) (scene : Scene) (out : Rendering Value) (setting : Setting)
  (store : Store)

/-- The expression has this value, but for the marks that the value is given. -/
def Expr.HasValue (expr : Expr) (value : Value) : Prop :=
  ∃ next after, expr.evaluate services scene out setting store = .ok (value.settle next).1 after

/-- The attributes of this expression are those of a loop over so many items in the pass with this
number. -/
structure ShowsPass (loop : Expr) (number count : Nat) : Prop where
  index : (loop.attribute "index").HasValue services scene out setting store (.int (.ofInt number))
  length : (loop.attribute "length").HasValue services scene out setting store
    (.int (.ofInt count))
  index0 : (loop.attribute "index0").HasValue services scene out setting store
    (.int (.ofInt (number - 1)))
  revindex : (loop.attribute "revindex").HasValue services scene out setting store
    (.int (.ofInt (count - number + 1)))
  revindex0 : (loop.attribute "revindex0").HasValue services scene out setting store
    (.int (.ofInt (count - number)))
  first : (loop.attribute "first").HasValue services scene out setting store
    (.bool (decide (number = 1)))
  last : (loop.attribute "last").HasValue services scene out setting store
    (.bool (decide (number = count)))
  odd : (loop.attribute "odd").HasValue services scene out setting store
    (.bool (decide (number % 2 = 1)))
  even : (loop.attribute "even").HasValue services scene out setting store
    (.bool (decide (number % 2 = 0)))
  parity : (loop.attribute "parity").HasValue services scene out setting store
    (.ofString (if number % 2 = 0 then "even" else "odd"))

/-- The position of the innermost loop and the chain of its parents are those of the loops, the
innermost one first; there are no others. -/
structure ShowsLoops (loops : List Position) : Prop where
  level : ∀ levels number count, loops[levels]? = some ⟨number, count⟩ →
    ShowsPass services scene out setting store (.loopAbove levels) number count
  outermost : loops ≠ [] →
    (Expr.loopAbove loops.length).HasValue services scene out setting store .none
  outside : loops = [] → (Expr.loopAbove 0).evaluate services scene out setting store =
    .error (.failure (.evaluation (.undefinedName "loop"))) store

end Telling

theorem positions_settleLevels (next : Nat) (levels : List LoopLevel) :
    (Value.settleLevels next levels).1.map LoopLevel.position = levels.map LoopLevel.position := by
  induction levels generalizing next with
  | nil => rfl
  | cons level rest ih =>
      obtain ⟨position, mark⟩ := level
      cases mark with
      | some n => rfl
      | none => exact congrArg (position :: ·) (ih (next + 1))

/-- A position that is given its mark stays a position, and its parents stay the same. -/
theorem exists_settle_loop (level : LoopLevel) (outer : List LoopLevel) (setting : Setting)
    (store : Store) :
    ∃ marked others after, Run.settle (.loop level outer) setting store =
        .ok (.loop marked others) after ∧
      (marked :: others).map LoopLevel.position = (level :: outer).map LoopLevel.position := by
  have hPositions := positions_settleLevels store.nextMark (level :: outer)
  obtain ⟨marked, others, hLevels, hSettle⟩ := Value.settle_loop store.nextMark level outer
  rw [hLevels] at hPositions
  exact ⟨marked, others, _, congrArg (EStateM.Result.ok · _) hSettle, hPositions⟩

/-- The attribute of a position is found without compiling anything. -/
theorem access_loop (calls : Nat) (level : LoopLevel) (outer : List LoopLevel) (name : String) :
    (services calls).access (.loop level outer) name =
      Run.ofEvaluation ((Value.loop level outer).access name) := by
  funext setting
  obtain ⟨inner, hInner⟩ := exists_servicesOver_eq calls
  obtain ⟨loader, hAccess, -⟩ := exists_assemble_apply inner setting
  rw [hInner, hAccess]
  rfl

section Scenes

variable {scene : Scene} {out : Rendering Value} {setting : Setting} {store : Store} {calls : Nat}

/-- Without a variable of that name, `loop` is the position of the innermost loop. -/
theorem evaluate_loop (hName : store.frames.lookup? scene.frame "loop" = none) :
    (Expr.loopAbove 0).evaluate (services calls) scene out setting store =
      (match scene.loops.value? with
        | some value => Run.settle value
        | none => Run.fault (.undefinedName "loop")) setting store := by
  have hLookup : Run.lookup? scene.frame "loop" setting store = .ok none store :=
    congrArg (EStateM.Result.ok · store) hName
  rw [Expr.loopAbove, Expr.evaluate, Scene.lookup]
  exact Run.bind_of_eq_ok hLookup

/-- An attribute of a position is what the position tells. -/
theorem evaluate_attribute {loop : Expr} {level : LoopLevel} {outer : List LoopLevel}
    {after : Store} {name : String} {value : Value}
    (h : loop.evaluate (services calls) scene out setting store = .ok (.loop level outer) after)
    (hValue : (Value.loop level outer).access name = .ok value) :
    (loop.attribute name).evaluate (services calls) scene out setting store =
      Run.settle value setting after := by
  rw [Expr.evaluate, Run.bind_of_eq_ok h, access_loop, hValue]
  rfl

/-- A loop that is so many loops further out is reached by as many parents. -/
theorem exists_loopAbove (out : Rendering Value) (setting : Setting) (calls : Nat)
    (hName : store.frames.lookup? scene.frame "loop" = none) (levels : Nat)
    {position : Position} {outer : List Position}
    (h : scene.loops.drop levels = position :: outer) :
    ∃ marked others after,
      (Expr.loopAbove levels).evaluate (services calls) scene out setting store =
        .ok (.loop marked others) after ∧
      marked.position = position ∧ others.map LoopLevel.position = outer := by
  induction levels generalizing position outer with
  | zero =>
      have hLoops : scene.loops = position :: outer := h
      obtain ⟨marked, others, after, hSettle, hPositions⟩ :=
        exists_settle_loop ⟨position, none⟩ (outer.map (⟨·, none⟩)) setting store
      refine ⟨marked, others, after, ?_, (List.cons.inj hPositions).1, ?_⟩
      · rw [evaluate_loop hName, hLoops]
        exact hSettle
      · rw [(List.cons.inj hPositions).2, List.map_map]
        exact List.map_id outer
  | succ levels ih =>
      rw [← List.drop_drop (i := 1)] at h
      cases hInner : scene.loops.drop levels with
      | nil =>
          rw [hInner] at h
          cases h
      | cons inner rest =>
          have hRest : rest = position :: outer := by
            rw [hInner] at h
            exact h
          obtain ⟨marked, others, after, hEvaluate, -, hOthers⟩ := ih hInner
          rw [hRest] at hOthers
          cases others with
          | nil => cases hOthers
          | cons next more =>
              obtain ⟨marked', others', final, hSettle, hPositions⟩ :=
                exists_settle_loop next more setting after
              have hSame := hPositions.trans hOthers
              refine ⟨marked', others', final, ?_, (List.cons.inj hSame).1,
                (List.cons.inj hSame).2⟩
              exact (evaluate_attribute hEvaluate rfl).trans hSettle

/-- The position of a loop tells the number of its pass and how many there are. -/
theorem showsPass (hName : store.frames.lookup? scene.frame "loop" = none)
    {levels number count : Nat} (h : scene.loops[levels]? = some ⟨number, count⟩) :
    ShowsPass (services calls) scene out setting store (.loopAbove levels) number count := by
  obtain ⟨hLevels, hPosition⟩ := List.getElem?_eq_some_iff.1 h
  obtain ⟨⟨position, mark⟩, others, after, hEvaluate, hMarked, -⟩ :=
    exists_loopAbove out setting calls hName levels
      (List.drop_eq_getElem_cons hLevels)
  obtain rfl : position = ⟨number, count⟩ := hMarked.trans hPosition
  have hAttribute {name : String} {value : Value}
      (hValue : loopAttribute? ⟨⟨number, count⟩, mark⟩ others name = some value) :
      ((Expr.loopAbove levels).attribute name).HasValue (services calls) scene out setting store
        value := by
    have hMethods : (Value.loop ⟨⟨number, count⟩, mark⟩ others).hasMethod name = false := rfl
    refine ⟨after.nextMark, _, evaluate_attribute hEvaluate ?_⟩
    simp [Value.access, Value.find?, hMethods, hValue]
  have hParity : (Position.mk number count).parity = if number % 2 = 0 then "even" else "odd" := by
    simp [Position.parity, Position.even]
  constructor
  case parity =>
      rw [← hParity]
      exact hAttribute rfl
  all_goals exact hAttribute rfl

/-- What `loop` and its parents tell are the open loops, all of them and no others. -/
theorem showsLoops (hName : store.frames.lookup? scene.frame "loop" = none) :
    ShowsLoops (services calls) scene out setting store scene.loops where
  level _ _ _ h := showsPass hName h
  outermost hLoops := by
    cases hLength : scene.loops.length with
    | zero => exact absurd (List.length_eq_zero_iff.1 hLength) hLoops
    | succ levels =>
        have hLevels : levels < scene.loops.length := by omega
        obtain ⟨marked, others, after, hEvaluate, -, hOthers⟩ :=
          exists_loopAbove out setting calls hName levels
            (List.drop_eq_getElem_cons hLevels)
        rw [List.drop_of_length_le (Nat.le_of_eq hLength), List.map_eq_nil_iff] at hOthers
        subst hOthers
        exact ⟨after.nextMark, _, evaluate_attribute hEvaluate rfl⟩
  outside hLoops := by
    rw [evaluate_loop hName, hLoops]
    rfl

end Scenes

/-! ## Calls -/

/-- On a machine of its own, a body is executed outside all loops. -/
theorem alone_trackAll (services : Services) (frame : FrameId) (escape : Escape)
    (out : Rendering Value) (instrs : List Instr) :
    (trackAll services [] ⟨frame, [], escape⟩ out instrs).alone =
      executeAll services ⟨frame, [], escape⟩ out instrs := by
  have hMirrors : Mirrors [] [] (trackAll services [] ⟨frame, [], escape⟩ out instrs)
      (executeAll services ⟨frame, [], escape⟩ out instrs) :=
    mirrors_trackAll [] [] ⟨frame, [], escape⟩ out instrs
  funext setting store
  obtain ⟨points, hTrack, -⟩ := hMirrors setting store []
  rw [Tracking.alone, Machine.fresh, hTrack]
  cases executeAll services ⟨frame, [], escape⟩ out instrs setting store <;> rfl

/-- Calls a function whose body is executed on a machine of its own. -/
def Closure.runAlone (services : Services) (closure : Closure Value) (arguments : Arguments) :
    Run Value := do
  let bound ← bindParameters closure.name closure.parameters closure.defaults arguments
  let frame ← Run.openFrame closure.frame
  Run.defineAll frame bound
  let (flow, out) ←
    (trackAll services [] ⟨frame, [], closure.escape⟩ .empty closure.body).alone
  match flow, closure.kind with
  | .returned (some value), _ => return value
  | _, .template => return .ofRendering out
  | _, .procedure => return .none

/-- Runs a template whose body is executed on a machine of its own. -/
def Template.runAlone (services : Services) (template : Template Value)
    (extras : List (String × Value)) (arguments : Arguments) : Run (Rendering Value) := do
  let bound ← bindParameters template.name template.program.parameters template.defaults arguments
  let frame ← Run.openFrame template.frame
  Run.defineAll frame extras
  Run.defineAll frame bound
  let (_, out) ←
    (trackAll services [] ⟨frame, [], template.escape⟩ .empty template.program.body).alone
  return out.fold

theorem Closure.run_eq_runAlone (services : Services) (closure : Closure Value)
    (arguments : Arguments) :
    closure.run (some services) arguments = closure.runAlone services arguments := by
  refine bind_congr fun bound => bind_congr fun frame => bind_congr fun _ => ?_
  exact congrArg (· >>= _) (alone_trackAll services frame closure.escape .empty closure.body).symm

theorem Template.run_eq_runAlone (services : Services) (template : Template Value)
    (extras : List (String × Value)) (arguments : Arguments) :
    template.run (some services) extras arguments =
      template.runAlone services extras arguments := by
  refine bind_congr fun bound => bind_congr fun frame => bind_congr fun _ => bind_congr fun _ => ?_
  exact congrArg (· >>= _)
    (alone_trackAll services frame template.escape .empty template.program.body).symm

/-! ## Loops in templates -/

/-- Positions of loops, wherever a program is executed. The instructions leave the stack of loops as
it was, however they end, and at each point in between the stack holds the loops around, with the
counts of their passes, on top of what was there before. What `loop` and its parents tell is what
the stack holds. The body of a function or a template that is called starts with an empty stack. A
code block tracks no loop, so only the directives do that are loops over items. -/
theorem loop_positions_are_exact (calls : Nat) :
    (∀ (scene : Scene) (out : Rendering Value) (instrs : List Instr) (setting : Setting)
      (machine : Machine), ∃ points,
        trackAll (services calls) [] scene out instrs setting machine =
          machine.after points (executeAll (services calls)
            { scene with loops := machine.loops } out instrs setting machine.store) ∧
        ∀ point ∈ points, point.loops = point.around ++ machine.loops) ∧
    (∀ (scene : Scene) (out : Rendering Value) (setting : Setting) (store : Store),
      store.frames.lookup? scene.frame "loop" = none →
      ShowsLoops (services calls) scene out setting store scene.loops) ∧
    (∀ (closure : Closure Value) (arguments : Arguments),
      closure.run (some (services calls)) arguments =
        closure.runAlone (services calls) arguments) ∧
    (∀ (template : Template Value) (extras : List (String × Value)) (arguments : Arguments),
      template.run (some (services calls)) extras arguments =
        template.runAlone (services calls) extras arguments) ∧
    (∀ (within : Surroundings) (text : List Char) (number : Nat) (body : List Instr),
      CodeBlock.compile within text number = .ok body → allTrackedLoops body = 0) ∧
    ∀ (text : List Char) (program : Program), Program.read text = .ok program →
      ∃ document, Document.read text = .ok document ∧
        allTrackedLoops program.body = suiteItemLoops document.body := by
  refine ⟨fun scene out instrs setting machine => ?_, fun scene out setting store hName => ?_,
    fun closure arguments => ?_, fun template extras arguments => ?_,
    fun within text number body hBody => ?_, fun text program hProgram => ?_⟩
  · exact mirrors_trackAll machine.loops [] scene out instrs setting machine.store machine.points
  · exact showsLoops hName
  · exact closure.run_eq_runAlone (services calls) arguments
  · exact template.run_eq_runAlone (services calls) extras arguments
  · exact CodeBlock.trackedLoops_compile within text number body hBody
  · exact Program.trackedLoops_read hProgram

namespace Rows

/-- A loop that is left in its first pass, inside another one. -/
def text : String :=
  "$for x in 'ab':\n  $for y in 'cd':\n    $loop.parent.index\n    $break\n  $loop.index\n"

/-- The header of the outer loop. -/
def outerHeader : List Char := "for x in 'ab'".toList

/-- The header of the inner loop. -/
def innerHeader : List Char := "for y in 'cd'".toList

/-- The code of the expression in the inner loop. -/
def parentCode : List Char := "loop.parent.index".toList

/-- The code of the expression behind the inner loop. -/
def code : List Char := "loop.index".toList

/-- The sections of the text. -/
def sections : List Section :=
  [.block 1 .forLoop outerHeader 0
    [.block 2 .forLoop innerHeader 0
        [.line ⟨3, [.expression parentCode true, .text ['\n']]⟩, .flow 4 .breakLoop "break".toList],
      .line ⟨5, [.expression code true, .text ['\n']]⟩]]

/-- What the text is compiled to. -/
def body : List Instr :=
  [.forLoop (.name "x") (.literal (.string "ab"))
    [.forLoop (.name "y") (.literal (.string "cd"))
        [.emit ((Expr.loopAbove 1).attribute "index") true, .text "\n", .breakLoop] none true,
      .emit ((Expr.loopAbove 0).attribute "index") true, .text "\n"] none true]

/-- A scene outside all loops. -/
def scene : Scene := ⟨Store.builtinFrame, [], .html⟩

/-- There are no files. -/
def setting : Setting := ⟨⟨[], [], []⟩, 9⟩

/-- Where the loops are at the points of the execution. In each pass of the outer loop there are the
items of the inner loop, its first pass, and again the outer loop alone. -/
def places : List (List Position) :=
  let pass (number : Nat) : List (List Position) :=
    let outer : Position := ⟨number, 2⟩
    [[outer]] ++ List.replicate 3 [⟨1, 2⟩, outer] ++ List.replicate 2 [outer]
  [[]] ++ pass 1 ++ pass 2

/-- Are these the headers of the loops and the expressions? -/
def isRead : Bool :=
  match readForHeader outerHeader, readForHeader innerHeader, Expr.read parentCode,
    Expr.read code with
  | .ok (.name x, .literal (.string first)), .ok (.name y, .literal (.string second)),
    .ok (.attribute (.attribute (.name loop) parent) index),
    .ok (.attribute (.name loop') index') =>
      (x, first, y, second) == ("x", "ab", "y", "cd") &&
        (loop, parent, index, loop', index') == ("loop", "parent", "index", "loop", "index")
  | _, _, _, _ => false

theorem read_text : Program.read text.toList = .ok ⟨[], body⟩ := by
  have hRead : isRead = true := by decide +kernel
  have hDocument : Document.read text.toList = .ok ⟨none, sections⟩ := by with_unfolding_all rfl
  unfold isRead at hRead
  split at hRead
  · rename_i hOuter hInner hParent hCode
    simp only [Bool.and_eq_true, beq_iff_eq, Prod.mk.injEq] at hRead
    obtain ⟨⟨rfl, rfl, rfl, rfl⟩, rfl, rfl, rfl, rfl, rfl⟩ := hRead
    have hBody : compileSuite .outside .nothing [] sections = .ok body := by
      simp only [sections, compileSuite, OpenBlock.close, loopInstr, flowInstr, onLine, compileLine,
        compilePieces, hOuter, hInner, hParent, hCode]
      rfl
    have hProgram : Program.ofDocument ⟨none, sections⟩ =
        (fun body => ⟨[], body⟩) <$> compileSuite .outside .nothing [] sections := rfl
    rw [Program.read_eq, hDocument]
    exact hProgram.trans (by rw [hBody]; rfl)
  · cases hRead

/-- Does the execution end like this, with these places of the loops around its points? -/
def endsSo : EStateM.Result Stop Machine Progress → Bool
  | .ok (.normal, out) machine =>
      out.text == "1\n1\n2\n2\n" && machine.points.map Point.around == places
  | _ => false

end Rows

/-- The inner loop is left in its first pass, and behind it the position is that of the outer loop
again. The stack shows where the loops are at every point of the execution. -/
theorem positions_of_nested_loops :
    Program.read Rows.text.toList = .ok ⟨[], Rows.body⟩ ∧
    (∃ points out after,
      trackAll (services 3) [] Rows.scene .empty Rows.body Rows.setting (.fresh .initial) =
        .ok (.normal, out) ⟨after, [], points⟩ ∧
      out.text = "1\n1\n2\n2\n" ∧ points.map Point.around = Rows.places ∧
      points.map Point.loops = Rows.places) ∧
    Store.initial.frames.lookup? Store.builtinFrame "loop" = none ∧
    ShowsLoops (services 3) ⟨Store.builtinFrame, [⟨1, 2⟩, ⟨2, 2⟩], .html⟩ .empty Rows.setting
      .initial [⟨1, 2⟩, ⟨2, 2⟩] := by
  have hName : Store.initial.frames.lookup? Store.builtinFrame "loop" = none := by decide
  obtain ⟨hMirrors, hShows, -⟩ := loop_positions_are_exact 3
  refine ⟨Rows.read_text, ?_, hName, hShows _ _ _ _ hName⟩
  have hEnds : Rows.endsSo (trackAll (services 3) [] Rows.scene .empty Rows.body Rows.setting
      (.fresh .initial)) = true := by decide +kernel
  obtain ⟨points, hTrack, hLoops⟩ :=
    hMirrors Rows.scene .empty Rows.body Rows.setting (.fresh .initial)
  have hSame : points.map Point.loops = points.map Point.around :=
    List.map_congr_left fun point hPoint => (hLoops point hPoint).trans (List.append_nil _)
  rw [hTrack] at hEnds ⊢
  generalize executeAll _ _ _ _ _ _ = result at hEnds ⊢
  cases result with
  | error stop store => cases hEnds
  | ok progress store =>
      obtain ⟨flow, out⟩ := progress
      cases flow with
      | normal =>
          obtain ⟨hText, hPlaces⟩ := Bool.and_eq_true_iff.1 hEnds
          have hAround : points.map Point.around = Rows.places := beq_iff_eq.1 hPlaces
          exact ⟨points, out, store, rfl, beq_iff_eq.1 hText, hAround, hSame.trans hAround⟩
      | _ => cases hEnds

end Stencil
