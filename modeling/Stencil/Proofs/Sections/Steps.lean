import Stencil.Program

/-!
# Compiling section by section

Compiling a list of sections goes from one section to the next with the instructions so far and a
construct that may still be open. `compileSection` is one such step, and `compileSuite_eq` says that
compiling is nothing but these steps, and a last one that closes the construct.

## Main results

* `compileSuite_cons`: compiling starts with a step.
* `compileSuite_eq`: compiling is a fold over the sections.
-/

namespace Stencil

/-- What a block adds. -/
def compileBlock (within : Surroundings) (state : Compiling) (line : Nat) (keyword : BlockKeyword)
    (header : List Char) (indent : Nat) (body : List Section) : Except CompileFault Compiling :=
  clause within state line keyword header indent fun around => compileSuite around .nothing [] body

/-- What a section that is no block adds to the instructions. -/
def compileSimple (within : Surroundings) (out : Emitted) : Section → Except CompileFault Emitted
  | .line content => compileLine within.indent out content
  | .assignment line code =>
      if code.isEmpty then .ok out
      else (.execute · :: out) <$> onLine line (Statement.read code)
  | .flow line keyword code => (·.toList ++ out) <$> flowInstr within keyword code line
  | .code line text => (·.reverse ++ out) <$> CodeBlock.compile within text line
  | .varExpression line name code => (.setVar name · :: out) <$> onLine line (Expr.read code)
  | .varFragment _ name lines =>
      (fun body => .setFragment name body.reverse :: out) <$> compileLines [] lines
  | .block .. => .ok out

/-- What a section adds. -/
def compileSection (within : Surroundings) (state : Compiling) :
    Section → Except CompileFault Compiling
  | .block line keyword header indent body =>
      compileBlock within state line keyword header indent body
  | other => do
      let out ← state.1.close state.2
      let out ← compileSimple within out other
      return (.nothing, out)

theorem compileSuite_cons (within : Surroundings) (open_ : OpenBlock) (out : Emitted)
    (first : Section) (rest : List Section) : compileSuite within open_ out (first :: rest) = (do
      let state ← compileSection within (open_, out) first
      compileSuite within state.1 state.2 rest) := by
  cases first with
  | block line keyword header indent body =>
      rw [compileSection, compileBlock]
      cases keyword with
      | elifBranch =>
          cases open_ with
          | _ => simp only [compileSuite, clause, bind_assoc, pure_bind, layoutError_bind]
      | elseBranch =>
          cases open_ with
          | _ => simp only [compileSuite, clause, bind_assoc, pure_bind, layoutError_bind]
      | _ => simp only [compileSuite, clause, bind_assoc, pure_bind]
  | line content => simp only [compileSuite, compileSection, compileSimple, bind_assoc, pure_bind]
  | assignment line code =>
      simp only [compileSuite, compileSection, compileSimple, bind_assoc, pure_bind]
      refine bind_congr fun closed => ?_
      split
      · rfl
      · rw [bind_map_left]
  | _ =>
      simp only [compileSuite, compileSection, compileSimple, bind_assoc, pure_bind, bind_map_left]

/-- Compiling the sections one after another. -/
def compileSections (within : Surroundings) (state : Compiling) (sections : List Section) :
    Except CompileFault Compiling :=
  sections.foldlM (compileSection within) state

/-- Compiling is a fold over the sections, and the construct that is open at the end is closed. -/
theorem compileSuite_eq (within : Surroundings) (open_ : OpenBlock) (out : Emitted)
    (sections : List Section) : compileSuite within open_ out sections = (do
      let state ← compileSections within (open_, out) sections
      let out ← state.1.close state.2
      return out.reverse) := by
  induction sections generalizing open_ out with
  | nil =>
      rw [compileSuite, compileSections, List.foldlM_nil, pure_bind]
  | cons first rest ih =>
      rw [compileSuite_cons, compileSections, List.foldlM_cons, bind_assoc]
      exact bind_congr fun state => ih state.1 state.2

end Stencil
