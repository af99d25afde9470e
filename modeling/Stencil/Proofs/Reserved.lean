import Stencil.Proofs.Placing

/-!
# The reserved name

The rendered text is one of the named values of a rendering, under a name that no directive can set:
an output variable with that name is refused when the template is read, and a code block sets no
output variables at all. So no instruction that a compiled template carries out replaces the text
that is rendered so far.

`Instr.steps` are the instructions without parts of their own that an instruction carries out. The
bodies of definitions and of fragments are not among them: they render texts of their own.

## Main results

* `Instr.Placed.setsText_steps`: no step of an instruction that stands where it may replaces the
  text.
* `Program.leavesText_read`: neither does a step of a compiled template.
-/

namespace Stencil

/-! ## Steps -/

mutual

/-- The instructions without parts that an instruction carries out. -/
def Instr.steps : Instr → List Instr
  | .branch branches otherwise => branchSteps branches ++ optionalSteps otherwise
  | .forLoop _ _ body otherwise _ => allSteps body ++ optionalSteps otherwise
  | .whileLoop _ body otherwise => allSteps body ++ optionalSteps otherwise
  | instr => [instr]

/-- The instructions without parts that instructions carry out. -/
def allSteps : List Instr → List Instr
  | [] => []
  | instr :: rest => instr.steps ++ allSteps rest

/-- The instructions without parts of a body that may be absent. -/
def optionalSteps : Option (List Instr) → List Instr
  | none => []
  | some body => allSteps body

/-- The instructions without parts of the bodies of branches. -/
def branchSteps : List (Expr × List Instr) → List Instr
  | [] => []
  | (_, body) :: rest => allSteps body ++ branchSteps rest

end

theorem mem_allSteps {step : Instr} {instrs : List Instr} :
    step ∈ allSteps instrs ↔ ∃ instr ∈ instrs, step ∈ instr.steps := by
  induction instrs with
  | nil => simp [allSteps]
  | cons instr rest ih => simp [allSteps, ih]

theorem mem_branchSteps {step : Instr} {branches : List (Expr × List Instr)} :
    step ∈ branchSteps branches ↔ ∃ branch ∈ branches, step ∈ allSteps branch.2 := by
  induction branches with
  | nil => simp [branchSteps]
  | cons branch rest ih => simp [branchSteps, ih]

/-- Does the instruction set an output variable under the name of the text? -/
def Instr.setsText : Instr → Bool
  | .setVar name _ => name == bodyName
  | .setFragment name _ => name == bodyName
  | _ => false

/-- No step of the instructions sets an output variable under the name of the text. -/
def LeavesText (instrs : List Instr) : Prop := ∀ step ∈ allSteps instrs, step.setsText = false

/-! ## Instructions that stand where they may -/

theorem setsText_optionalSteps {otherwise : Option (List Instr)}
    (h : ∀ body ∈ otherwise, ∀ instr ∈ body, ∀ step ∈ instr.steps, step.setsText = false) :
    ∀ step ∈ optionalSteps otherwise, step.setsText = false := by
  intro step hStep
  cases otherwise with
  | none => cases hStep
  | some body =>
      obtain ⟨instr, hInstr, hStep⟩ := mem_allSteps.1 hStep
      exact h body rfl instr hInstr step hStep

theorem setsText_allSteps {body : List Instr}
    (h : ∀ instr ∈ body, ∀ step ∈ instr.steps, step.setsText = false) :
    ∀ step ∈ allSteps body, step.setsText = false := by
  intro step hStep
  obtain ⟨instr, hInstr, hStep⟩ := mem_allSteps.1 hStep
  exact h instr hInstr step hStep

/-- No step of an instruction that stands where it may replaces the text. -/
theorem Instr.Placed.setsText_steps {inLoop inDefinition : Bool} {instr : Instr}
    (h : instr.Placed inLoop inDefinition) : ∀ step ∈ instr.steps, step.setsText = false := by
  induction h with
  | branch hBranches hOtherwise ihBranches ihOtherwise =>
      rw [steps]
      refine List.forall_mem_append.2 ⟨fun step hStep => ?_, setsText_optionalSteps ihOtherwise⟩
      obtain ⟨branch, hBranch, hStep⟩ := mem_branchSteps.1 hStep
      exact setsText_allSteps (ihBranches branch hBranch) step hStep
  | forLoop target items tracked hBody hOtherwise ihBody ihOtherwise =>
      rw [steps]
      exact List.forall_mem_append.2 ⟨setsText_allSteps ihBody, setsText_optionalSteps ihOtherwise⟩
  | whileLoop test hBody hOtherwise ihBody ihOtherwise =>
      rw [steps]
      exact List.forall_mem_append.2 ⟨setsText_allSteps ihBody, setsText_optionalSteps ihOtherwise⟩
  | setVar hName value => exact List.forall_mem_singleton.2 hName
  | setFragment hName hBody ihBody => exact List.forall_mem_singleton.2 hName
  | _ => exact List.forall_mem_singleton.2 rfl

/-- No step of a compiled template sets an output variable under the name of the text. -/
theorem Program.leavesText_read (text : List Char) :
    Ensures (fun program => LeavesText program.body) (Program.read text) :=
  (accepts_read text).mono fun _ hBody =>
    setsText_allSteps fun instr hInstr => (hBody instr hInstr).setsText_steps

end Stencil
