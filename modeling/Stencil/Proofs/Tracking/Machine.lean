import Stencil.Execution

/-!
# Execution with a stack of loops

Execution hands the open loops down to the places inside a loop, so a loop that ends has nothing to
give back. `track` executes the same instructions on a machine with one stack that all steps share:
a loop is pushed where it begins, advanced in place with every pass, and popped where it ends,
however it ends. An instruction finds on the stack what the steps before it have left there.

Besides, `track` counts. Every loop around a place has the number of its pass, the first one being
pass one, and the number of its items, and no stack is looked at for them. Wherever an expression is
evaluated, the machine notes these counts beside the stack.

## Main results

* `mirrors_trackAll`: both executions are the same, the stack is the same before and after, and at
  each point in between it shows the counts of the loops around on top of what was there before.
-/

namespace Stencil

/-! ## The machine -/

/-- A point of an execution: where an expression is evaluated, or an instruction executed. -/
structure Point where
  /-- How far the loops around it are, by the count of their passes and items, the innermost one
  first. -/
  around : List Position
  /-- The stack of loops there. -/
  loops : Loops

/-- What steps share: the store, the stack of loops, and the points that were passed so far. -/
structure Machine where
  store : Store
  loops : Loops
  points : List Point

/-- A step that reads the files and changes the machine. -/
abbrev Tracking := ReaderT Setting (EStateM Stop Machine)

namespace Machine

/-- Nothing is open and no point was passed. -/
def fresh (store : Store) : Machine := ⟨store, [], []⟩

/-- The machine after a run that passed these points. The stack is as it was. -/
def after {α : Type} (machine : Machine) (points : List Point) :
    EStateM.Result Stop Store α → EStateM.Result Stop Machine α
  | .ok value store => .ok value ⟨store, machine.loops, machine.points ++ points⟩
  | .error stop store => .error stop ⟨store, machine.loops, machine.points ++ points⟩

/-- The points of a second run come after those of the first one. -/
theorem after_append {α : Type} (machine : Machine) (store : Store) (points more : List Point)
    (result : EStateM.Result Stop Store α) :
    after ⟨store, machine.loops, machine.points ++ points⟩ more result =
      machine.after (points ++ more) result := by
  cases result <;> simp [after]

end Machine

namespace Tracking

variable {α β : Type}

/-- A run that does not ask for loops. -/
def ofRun (run : Run α) : Tracking α := fun setting machine =>
  machine.after [] (run setting machine.store)

/-- A run at a point that these loops are around. It finds the open loops on the stack. -/
def inside (around : List Position) (run : Loops → Run α) : Tracking α := fun setting machine =>
  machine.after [⟨around, machine.loops⟩] (run machine.loops setting machine.store)

/-- Begins the next pass of the loop on top of the stack. -/
def advance : Tracking Unit :=
  modify fun machine => { machine with loops := machine.loops.advance }

/-- Opens a loop of so many passes for an action, and closes it however the action ends. -/
def inLoop (length : Nat) (action : Tracking α) : Tracking α := fun setting machine =>
  match action setting { machine with loops := machine.loops.enter length } with
  | .ok value machine => .ok value { machine with loops := machine.loops.exit }
  | .error stop machine => .error stop { machine with loops := machine.loops.exit }

/-- Carries an action out on a machine of its own, on which no loop is open. -/
def alone (action : Tracking α) : Run α := fun setting store =>
  match action setting (.fresh store) with
  | .ok value machine => .ok value machine.store
  | .error stop machine => .error stop machine.store

end Tracking

/-! ## Execution on the machine -/

/-- Makes a pass for each item, the next one with this number. -/
def trackEach (tracked : Bool) (pass : Nat → Value → Rendering Value → Tracking Progress)
    (number : Nat) (out : Rendering Value) : List Value → Tracking Progress
  | [] => return (.normal, out)
  | item :: rest => do
      if tracked then Tracking.advance
      let (flow, out) ← pass number item out
      if flow.goesOn then trackEach tracked pass (number + 1) out rest else return (flow, out)

/-- Makes passes while a test holds, at most so many. -/
def trackWhile (test : Rendering Value → Tracking Bool)
    (pass : Rendering Value → Tracking Progress) : Nat → Rendering Value → Tracking Progress
  | 0, out => do
      let holds ← test out
      if holds then throw .unfinished else return (.normal, out)
  | passes + 1, out => do
      let holds ← test out
      if holds then
        let (flow, out) ← pass out
        if flow.goesOn then trackWhile test pass passes out else return (flow, out)
      else return (.normal, out)

section Instructions

variable (services : Services)

mutual

/-- Executes an instruction that these loops are around. The loops of the scene are not used. -/
def track (around : List Position) (scene : Scene) (out : Rendering Value) :
    Instr → Tracking Progress
  | .branch branches otherwise => do
      match ← trackBranches around scene out branches with
      | some progress => return progress
      | none => trackOptional around scene out otherwise
  | .forLoop target items body otherwise tracked => do
      let source ← Tracking.inside around fun loops =>
        items.evaluate services { scene with loops } out
      let items ← Tracking.ofRun source.items
      let pass := fun (number : Nat) (item : Value) (out : Rendering Value) => do
        Tracking.ofRun (assign scene.frame item target)
        trackAll (if tracked then ⟨number, items.length⟩ :: around else around) scene out body
      let passes := trackEach tracked pass 1 out items
      let loop := if tracked then Tracking.inLoop items.length passes else passes
      let (flow, out) ← loop
      match flow with
      | .normal => trackOptional around scene out otherwise
      | .returned value => return (.returned value, out)
      | _ => return (.normal, out)
  | .whileLoop test body otherwise => do
      let holds := fun out => Tracking.inside around fun loops =>
        Value.truthy <$> test.evaluate services { scene with loops } out
      let passes := (← read).passes
      let (flow, out) ← trackWhile holds (fun out => trackAll around scene out body) passes out
      match flow with
      | .normal => trackOptional around scene out otherwise
      | .returned value => return (.returned value, out)
      | _ => return (.normal, out)
  | .setFragment name body => do
      let (flow, fragment) ← trackAll around scene .empty body
      match flow with
      | .returned value => return (.returned value, out)
      | _ => do
          let text ← Tracking.ofRun (Run.settle (.ofString fragment.text))
          return (.normal, out.insert name text)
  | instr => Tracking.inside around fun loops => execute services { scene with loops } out instr

/-- Executes instructions in order, up to the first one that changes the flow. -/
def trackAll (around : List Position) (scene : Scene) (out : Rendering Value) :
    List Instr → Tracking Progress
  | [] => return (.normal, out)
  | instr :: rest => do
      let (flow, out) ← track around scene out instr
      match flow with
      | .normal => trackAll around scene out rest
      | flow => return (flow, out)

/-- Executes instructions that may be absent. -/
def trackOptional (around : List Position) (scene : Scene) (out : Rendering Value) :
    Option (List Instr) → Tracking Progress
  | none => return (.normal, out)
  | some body => trackAll around scene out body

/-- Executes the body of the first branch whose test holds, if there is one. -/
def trackBranches (around : List Position) (scene : Scene) (out : Rendering Value) :
    List (Expr × List Instr) → Tracking (Option Progress)
  | [] => return none
  | (test, body) :: rest => do
      let test ← Tracking.inside around fun loops =>
        test.evaluate services { scene with loops } out
      if test.truthy then some <$> trackAll around scene out body
      else trackBranches around scene out rest

end

/-! ## Both executions are the same -/

/-- On a machine with these loops, the action does what the run does, leaves the loops as they are,
and passes only points where the stack shows the loops around on top of those outside. -/
def Mirrors {α : Type} (outside loops : Loops) (action : Tracking α) (run : Run α) : Prop :=
  ∀ setting store before, ∃ points,
    action setting ⟨store, loops, before⟩ =
      Machine.after ⟨store, loops, before⟩ points (run setting store) ∧
    ∀ point ∈ points, point.loops = point.around ++ outside

namespace Mirrors

variable {α β : Type} {outside loops : Loops}

theorem pure (value : α) : Mirrors outside loops (pure value) (pure value) := by
  intro setting store before
  refine ⟨[], ?_, by simp⟩
  show EStateM.Result.ok value _ = .ok value _
  rw [List.append_nil]

theorem throw (stop : Stop) :
    Mirrors outside loops (throw stop : Tracking α) (throw stop : Run α) := by
  intro setting store before
  refine ⟨[], ?_, by simp⟩
  show EStateM.Result.error stop _ = .error stop _
  rw [List.append_nil]

theorem read : Mirrors outside loops read read := by
  intro setting store before
  refine ⟨[], ?_, by simp⟩
  show EStateM.Result.ok setting _ = .ok setting _
  rw [List.append_nil]

theorem ofRun (run : Run α) : Mirrors outside loops (Tracking.ofRun run) run := by
  intro setting store before
  exact ⟨[], rfl, by simp⟩

/-- At a point the stack shows the loops around. -/
theorem inside (around : List Position) (run : Loops → Run α) :
    Mirrors outside (around ++ outside) (Tracking.inside around run) (run (around ++ outside)) := by
  intro setting store before
  exact ⟨[⟨around, around ++ outside⟩], rfl, by simp⟩

theorem bind {action : Tracking α} {run : Run α} {next : α → Tracking β} {next' : α → Run β}
    (h : Mirrors outside loops action run)
    (hNext : ∀ value, Mirrors outside loops (next value) (next' value)) :
    Mirrors outside loops (action >>= next) (run >>= next') := by
  intro setting store before
  obtain ⟨points, hAction, hPoints⟩ := h setting store before
  have hBind : (action >>= next) setting ⟨store, loops, before⟩ =
      EStateM.bind (action setting) (fun value => next value setting) ⟨store, loops, before⟩ := rfl
  have hBind' : (run >>= next') setting store =
      EStateM.bind (run setting) (fun value => next' value setting) store := rfl
  rw [hBind, hBind', EStateM.bind, EStateM.bind, hAction]
  cases run setting store with
  | error stop store => exact ⟨points, rfl, hPoints⟩
  | ok value store =>
      obtain ⟨more, hMore, hPoints'⟩ := hNext value setting store (before ++ points)
      refine ⟨points ++ more, ?_, List.forall_mem_append.2 ⟨hPoints, hPoints'⟩⟩
      exact hMore.trans (Machine.after_append ⟨store, loops, before⟩ _ _ _ _)

theorem map {action : Tracking α} {run : Run α} (f : α → β) (h : Mirrors outside loops action run) :
    Mirrors outside loops (f <$> action) (f <$> run) := by
  rw [map_eq_pure_bind, map_eq_pure_bind]
  exact h.bind fun value => .pure (f value)

theorem ite {c : Prop} [Decidable c] {action other : Tracking α} {run run' : Run α}
    (h : Mirrors outside loops action run) (h' : Mirrors outside loops other run') :
    Mirrors outside loops (if c then action else other) (if c then run else run') := by
  split
  · exact h
  · exact h'

end Mirrors

variable {services} {outside loops : Loops}

theorem mirrors_trackEach {pass : Nat → Value → Rendering Value → Tracking Progress}
    {pass' : Loops → Value → Rendering Value → Run Progress}
    (h : ∀ number item out, Mirrors outside loops (pass number item out) (pass' loops item out))
    (number : Nat) (out : Rendering Value) (items : List Value) :
    Mirrors outside loops (trackEach false pass number out items)
      (forEach false pass' loops out items) := by
  induction items generalizing number out with
  | nil => exact .pure _
  | cons item rest ih =>
      refine (h number item out).bind fun progress => .ite ?_ (.pure _)
      exact ih (number + 1) progress.2

/-- The passes of a loop that is on the stack: when the next pass begins, the loop is advanced to
its number. At the end it is wherever the last pass has left it. -/
theorem exists_trackEach {length : Nat}
    {pass : Nat → Value → Rendering Value → Tracking Progress}
    {pass' : Loops → Value → Rendering Value → Run Progress}
    (h : ∀ number item out, Mirrors outside (⟨number, length⟩ :: loops) (pass number item out)
      (pass' (⟨number, length⟩ :: loops) item out))
    (number : Nat) (out : Rendering Value) (items : List Value) (setting : Setting) (store : Store)
    (before : List Point) :
    ∃ points last,
      trackEach true pass (number + 1) out items setting
          ⟨store, ⟨number, length⟩ :: loops, before⟩ =
        Machine.after ⟨store, ⟨last, length⟩ :: loops, before⟩ points
          (forEach true pass' (⟨number, length⟩ :: loops) out items setting store) ∧
      ∀ point ∈ points, point.loops = point.around ++ outside := by
  induction items generalizing number out store before with
  | nil =>
      refine ⟨[], number, ?_, by simp⟩
      show EStateM.Result.ok _ _ = .ok _ _
      rw [List.append_nil]
  | cons item rest ih =>
      obtain ⟨points, hPass, hPoints⟩ := h (number + 1) item out setting store before
      have hTrack : trackEach true pass (number + 1) out (item :: rest) setting
          ⟨store, ⟨number, length⟩ :: loops, before⟩ =
          EStateM.bind (pass (number + 1) item out setting) (fun progress =>
            (if progress.1.goesOn then trackEach true pass (number + 2) progress.2 rest
              else return progress : Tracking Progress) setting)
            ⟨store, ⟨number + 1, length⟩ :: loops, before⟩ := rfl
      have hEach : forEach true pass' (⟨number, length⟩ :: loops) out (item :: rest) setting store =
          EStateM.bind (pass' (⟨number + 1, length⟩ :: loops) item out setting) (fun progress =>
            (if progress.1.goesOn then
              forEach true pass' (⟨number + 1, length⟩ :: loops) progress.2 rest
              else return progress : Run Progress) setting) store := rfl
      rw [hTrack, hEach, EStateM.bind, EStateM.bind, hPass]
      cases pass' (⟨number + 1, length⟩ :: loops) item out setting store with
      | error stop store => exact ⟨points, number + 1, rfl, hPoints⟩
      | ok progress store =>
          by_cases hGoes : progress.1.goesOn
          · obtain ⟨more, last, hMore, hPoints'⟩ :=
              ih (number + 1) progress.2 store (before ++ points)
            refine ⟨points ++ more, last, ?_, List.forall_mem_append.2 ⟨hPoints, hPoints'⟩⟩
            simp only [Machine.after, if_pos hGoes, hMore]
            exact Machine.after_append ⟨store, ⟨last, length⟩ :: loops, before⟩ store points more _
          · refine ⟨points, number + 1, ?_, hPoints⟩
            simp only [Machine.after, if_neg hGoes]
            rfl

/-- A loop that is opened for its passes is closed after them, wherever it is then. -/
theorem mirrors_inLoop {length : Nat} {pass : Nat → Value → Rendering Value → Tracking Progress}
    {pass' : Loops → Value → Rendering Value → Run Progress}
    (h : ∀ number item out, Mirrors outside (⟨number, length⟩ :: loops) (pass number item out)
      (pass' (⟨number, length⟩ :: loops) item out)) (out : Rendering Value) (items : List Value) :
    Mirrors outside loops (Tracking.inLoop length (trackEach true pass 1 out items))
      (forEach true pass' (loops.enter length) out items) := by
  intro setting store before
  obtain ⟨points, last, hEach, hPoints⟩ := exists_trackEach h 0 out items setting store before
  refine ⟨points, ?_, hPoints⟩
  rw [Tracking.inLoop]
  simp only [Loops.enter, hEach]
  cases forEach true pass' (⟨0, length⟩ :: loops) out items setting store <;> rfl

theorem mirrors_trackWhile {test : Rendering Value → Tracking Bool}
    {test' : Rendering Value → Run Bool} {pass : Rendering Value → Tracking Progress}
    {pass' : Rendering Value → Run Progress}
    (hTest : ∀ out, Mirrors outside loops (test out) (test' out))
    (h : ∀ out, Mirrors outside loops (pass out) (pass' out)) (passes : Nat)
    (out : Rendering Value) : Mirrors outside loops (trackWhile test pass passes out)
      (whileHolds test' pass' passes out) := by
  induction passes generalizing out with
  | zero => exact (hTest out).bind fun holds => .ite (.throw _) (.pure _)
  | succ passes ih =>
      refine (hTest out).bind fun holds => .ite ?_ (.pure _)
      exact (h out).bind fun progress => .ite (ih progress.2) (.pure _)

/-- After its passes, a loop goes on with its `else`, or with the jump that ended it. -/
theorem mirrors_afterLoop {action : Tracking Progress} {run : Run Progress}
    {otherwise : Rendering Value → Tracking Progress}
    {otherwise' : Rendering Value → Run Progress} (hLoop : Mirrors outside loops action run)
    (h : ∀ out, Mirrors outside loops (otherwise out) (otherwise' out)) :
    Mirrors outside loops
      (do
        let (flow, out) ← action
        match flow with
        | .normal => otherwise out
        | .returned value => return (.returned value, out)
        | _ => return (.normal, out))
      (do
        let (flow, out) ← run
        match flow with
        | .normal => otherwise' out
        | .returned value => return (.returned value, out)
        | _ => return (.normal, out)) := by
  refine hLoop.bind fun progress => ?_
  obtain ⟨flow, out⟩ := progress
  cases flow with
  | normal => exact h out
  | _ => exact .pure _

mutual

theorem mirrors_track (outside : Loops) (around : List Position) (scene : Scene)
    (out : Rendering Value) : ∀ instr : Instr,
    Mirrors outside (around ++ outside) (track services around scene out instr)
      (execute services { scene with loops := around ++ outside } out instr)
  | .branch branches otherwise => by
      rw [track, execute]
      refine (mirrors_trackBranches outside around scene out branches).bind fun found => ?_
      cases found with
      | some progress => exact .pure progress
      | none => exact mirrors_trackOptional outside around scene out otherwise
  | .forLoop target items body otherwise tracked => by
      rw [track, execute]
      refine (Mirrors.inside around _).bind fun source => (Mirrors.ofRun _).bind fun items => ?_
      refine mirrors_afterLoop ?_ fun out =>
        mirrors_trackOptional outside around scene out otherwise
      cases tracked with
      | true =>
          refine mirrors_inLoop (fun number item out => ?_) out items
          refine (Mirrors.ofRun _).bind fun _ => ?_
          exact mirrors_trackAll outside (⟨number, items.length⟩ :: around) scene out body
      | false =>
          refine mirrors_trackEach (fun number item out => ?_) 1 out items
          refine (Mirrors.ofRun _).bind fun _ => ?_
          exact mirrors_trackAll outside around scene out body
  | .whileLoop test body otherwise => by
      rw [track, execute]
      refine Mirrors.read.bind fun setting => mirrors_afterLoop ?_ fun out =>
        mirrors_trackOptional outside around scene out otherwise
      exact mirrors_trackWhile (fun out => .inside around _)
        (fun out => mirrors_trackAll outside around scene out body) setting.passes out
  | .setFragment name body => by
      rw [track, execute]
      refine (mirrors_trackAll outside around scene .empty body).bind fun progress => ?_
      obtain ⟨flow, fragment⟩ := progress
      cases flow with
      | returned value => exact .pure _
      | _ => exact (Mirrors.ofRun _).bind fun text => .pure _
  | .text content => .inside around fun loops => execute services { scene with loops } out _
  | .emit value escape => .inside around fun loops => execute services { scene with loops } out _
  | .execute statement => .inside around fun loops => execute services { scene with loops } out _
  | .define kind name parameters body =>
      .inside around fun loops => execute services { scene with loops } out _
  | .setVar name value => .inside around fun loops => execute services { scene with loops } out _
  | .breakLoop => .inside around fun loops => execute services { scene with loops } out _
  | .continueLoop => .inside around fun loops => execute services { scene with loops } out _
  | .returnValue value => .inside around fun loops => execute services { scene with loops } out _

/-- Execution on the machine is execution. The loops are the same before and after, and at each
point the stack shows the loops around. -/
theorem mirrors_trackAll (outside : Loops) (around : List Position) (scene : Scene)
    (out : Rendering Value) : ∀ instrs : List Instr,
    Mirrors outside (around ++ outside) (trackAll services around scene out instrs)
      (executeAll services { scene with loops := around ++ outside } out instrs)
  | [] => .pure _
  | instr :: rest => by
      rw [trackAll, executeAll_cons]
      refine (mirrors_track outside around scene out instr).bind fun progress => ?_
      obtain ⟨flow, out'⟩ := progress
      cases flow with
      | normal => exact mirrors_trackAll outside around scene out' rest
      | _ => exact .pure _

theorem mirrors_trackOptional (outside : Loops) (around : List Position) (scene : Scene)
    (out : Rendering Value) : ∀ body : Option (List Instr),
    Mirrors outside (around ++ outside) (trackOptional services around scene out body)
      (executeOptional services { scene with loops := around ++ outside } out body)
  | none => .pure _
  | some body => by
      rw [trackOptional, executeOptional]
      exact mirrors_trackAll outside around scene out body

theorem mirrors_trackBranches (outside : Loops) (around : List Position) (scene : Scene)
    (out : Rendering Value) : ∀ branches : List (Expr × List Instr),
    Mirrors outside (around ++ outside) (trackBranches services around scene out branches)
      (executeBranches services { scene with loops := around ++ outside } out branches)
  | [] => .pure _
  | (test, body) :: rest => by
      rw [trackBranches, executeBranches]
      refine (Mirrors.inside around _).bind fun value => .ite ?_ ?_
      · exact (mirrors_trackAll outside around scene out body).map some
      · exact mirrors_trackBranches outside around scene out rest

end

end Instructions

end Stencil
