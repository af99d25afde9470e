import Stencil.Proofs.Placing
import Stencil.Execution

/-!
# Jumps and the loops they are aimed at

A directive that steers a loop is about the innermost loop whose body it stands in; the `else` of a
loop stands outside the loop. `follow` executes instructions by this rule: the loops around a place
are counted, the outermost one is number one, every jump has the number of the loop that it is aimed
at, and only the loop with that number stops it. Besides, it keeps account of the loops: of how each
pass of a loop ended, and of whether the `else` of the loop was carried out.

Execution itself does not know what a jump is aimed at: the next loop on the way out stops it.

## Main results

* `followAll_aimed`: both are the same, so the next loop on the way out is the right one.
* `orderly_followAll`: the `else` of a loop is carried out exactly when no pass left the loop.
-/

namespace Stencil

/-! ## Aims -/

/-- How execution goes on, with the loops that jumps are aimed at. -/
inductive Aim where
  /-- To the next instruction. -/
  | normal
  /-- Out of the loop with this number. -/
  | leave (loop : Nat)
  /-- To the next pass of the loop with this number. -/
  | again (loop : Nat)
  /-- Out of the call, with the value that was given. -/
  | returned (value : Option Value)

/-- The same flow, where jumps are aimed at a loop. -/
def Flow.aimedAt (loop : Nat) : Flow → Aim
  | normal => .normal
  | broke => .leave loop
  | continued => .again loop
  | returned value => .returned value

/-- Does the loop with this number make the next pass after a pass that ended this way? -/
def Aim.goesOn (loop : Nat) : Aim → Bool
  | normal => true
  | again target => target == loop
  | _ => false

/-- A jump that is aimed at the loop with this number goes no further. -/
def Aim.stopAt (loop : Nat) : Aim → Aim
  | leave target => if target = loop then normal else leave target
  | again target => if target = loop then normal else again target
  | aim => aim

/-- Execution up to some point, with the loops that jumps are aimed at. -/
abbrev Course := Aim × Rendering Value

/-- The same progress, where jumps are aimed at a loop. -/
def Progress.aimedAt (loop : Nat) (progress : Progress) : Course :=
  (progress.1.aimedAt loop, progress.2)

/-- One execution of a loop: its number, how each of its passes ended, and whether its `else` was
carried out; one that is absent is carried out by doing nothing. -/
structure Visit where
  loop : Nat
  passes : List Aim
  otherwise : Bool

/-- The visit is in order: no pass ended with a jump to another loop, only the last pass can have
left the loop, and the `else` was carried out exactly when none did. -/
structure Visit.IsOrderly (visit : Visit) : Prop where
  aims : ∀ aim ∈ visit.passes, ∃ flow : Flow, aim = flow.aimedAt visit.loop
  goesOn : ∀ aim ∈ visit.passes.dropLast, aim.goesOn visit.loop = true
  otherwise : visit.otherwise = true ↔
    ∀ aim ∈ visit.passes, aim ≠ .leave visit.loop ∧ ∀ value, aim ≠ .returned value

/-- The course of an execution, and the loops that were visited. -/
abbrev Followed := Course × List Visit

/-- The course of the passes of a loop, how each of them ended, and the loops that were visited in
them. -/
abbrev Passes := Course × List Aim × List Visit

/-- The same with a pass before. -/
def Passes.after (aim : Aim) (visits : List Visit) (passes : Passes) : Passes :=
  (passes.1, aim :: passes.2.1, visits ++ passes.2.2)

/-! ## Execution by number -/

/-- Makes a pass of a loop for each item. -/
def followEach (loop : Nat) (tracked : Bool)
    (pass : Loops → Value → Rendering Value → Run Followed) (loops : Loops)
    (out : Rendering Value) : List Value → Run Passes
  | [] => return ((.normal, out), [], [])
  | item :: rest => do
      let loops := if tracked then loops.advance else loops
      let ((aim, out), visits) ← pass loops item out
      if aim.goesOn loop then
        Passes.after aim visits <$> followEach loop tracked pass loops out rest
      else return ((aim, out), [aim], visits)

/-- Makes passes of a loop while a test holds, at most so many. -/
def followWhile (loop : Nat) (test : Rendering Value → Run Bool)
    (pass : Rendering Value → Run Followed) : Nat → Rendering Value → Run Passes
  | 0, out => do
      let holds ← test out
      if holds then throw .unfinished else return ((.normal, out), [], [])
  | passes + 1, out => do
      let holds ← test out
      if holds then
        let ((aim, out), visits) ← pass out
        if aim.goesOn loop then Passes.after aim visits <$> followWhile loop test pass passes out
        else return ((aim, out), [aim], visits)
      else return ((.normal, out), [], [])

/-- Goes on after the passes of a loop: with its `else` when they are used up, and otherwise with
the course that ended them, where a jump that is aimed at this loop stops. -/
def followLoop (loop : Nat) (otherwise : Rendering Value → Run Followed) (passes : Passes) :
    Run Followed :=
  match passes with
  | ((.normal, out), aims, visits) => do
      let (course, more) ← otherwise out
      return (course, visits ++ ⟨loop, aims, true⟩ :: more)
  | ((aim, out), aims, visits) => return ((aim.stopAt loop, out), visits ++ [⟨loop, aims, false⟩])

section Following

variable (services : Services)

mutual

/-- Executes an instruction in the body of so many loops. -/
def follow (around : Nat) (scene : Scene) (out : Rendering Value) : Instr → Run Followed
  | .branch branches otherwise => do
      match ← followBranches around scene out branches with
      | some followed => return followed
      | none => followOptional around scene out otherwise
  | .forLoop target items body otherwise tracked => do
      let source ← items.evaluate services scene out
      let items ← source.items
      let loops := if tracked then scene.loops.enter items.length else scene.loops
      let pass := fun (loops : Loops) (item : Value) (out : Rendering Value) => do
        assign scene.frame item target
        followAll (around + 1) { scene with loops } out body
      let passes ← followEach (around + 1) tracked pass loops out items
      followLoop (around + 1) (fun out => followOptional around scene out otherwise) passes
  | .whileLoop test body otherwise => do
      let holds := fun out => Value.truthy <$> test.evaluate services scene out
      let most := (← read).passes
      let passes ← followWhile (around + 1) holds
        (fun out => followAll (around + 1) scene out body) most out
      followLoop (around + 1) (fun out => followOptional around scene out otherwise) passes
  | .breakLoop => return ((.leave around, out), [])
  | .continueLoop => return ((.again around, out), [])
  | instr => (fun progress => (progress.aimedAt around, [])) <$> execute services scene out instr

/-- Executes instructions in order, in the body of so many loops. -/
def followAll (around : Nat) (scene : Scene) (out : Rendering Value) : List Instr → Run Followed
  | [] => return ((.normal, out), [])
  | instr :: rest => do
      let ((aim, out), visits) ← follow around scene out instr
      match aim with
      | .normal => do
          let (course, more) ← followAll around scene out rest
          return (course, visits ++ more)
      | aim => return ((aim, out), visits)

/-- Executes instructions that may be absent, in the body of so many loops. -/
def followOptional (around : Nat) (scene : Scene) (out : Rendering Value) :
    Option (List Instr) → Run Followed
  | none => return ((.normal, out), [])
  | some body => followAll around scene out body

/-- Executes the body of the first branch whose test holds, in the body of so many loops. -/
def followBranches (around : Nat) (scene : Scene) (out : Rendering Value) :
    List (Expr × List Instr) → Run (Option Followed)
  | [] => return none
  | (test, body) :: rest => do
      let test ← test.evaluate services scene out
      if test.truthy then some <$> followAll around scene out body
      else followBranches around scene out rest

end

/-! ## Both executions are the same -/

/-- Two steps in a row, where the first one gives the same in another form. -/
theorem bind_of_map_eq {m : Type → Type} [Monad m] [LawfulMonad m] {α β γ δ : Type} {f : α → γ}
    {g : β → γ} {first : m α} {other : m β} (h : f <$> first = g <$> other) {next : α → m δ}
    {next' : β → m δ} (common : γ → m δ) (hNext : ∀ a, next a = common (f a))
    (hNext' : ∀ b, next' b = common (g b)) : first >>= next = other >>= next' := by
  calc first >>= next = (f <$> first) >>= common := by rw [bind_map_left]; exact bind_congr hNext
    _ = (g <$> other) >>= common := by rw [h]
    _ = other >>= next' := by rw [bind_map_left]; exact (bind_congr hNext').symm

theorem goesOn_aimedAt (loop : Nat) (flow : Flow) :
    (flow.aimedAt loop).goesOn loop = flow.goesOn := by
  cases flow with
  | continued => exact beq_self_eq_true loop
  | _ => rfl

theorem followEach_aimed (loop : Nat) (tracked : Bool)
    {pass : Loops → Value → Rendering Value → Run Followed}
    {pass' : Loops → Value → Rendering Value → Run Progress}
    (h : ∀ loops item out, Prod.fst <$> pass loops item out =
      Progress.aimedAt loop <$> pass' loops item out)
    (loops : Loops) (out : Rendering Value) (items : List Value) :
    Prod.fst <$> followEach loop tracked pass loops out items =
      Progress.aimedAt loop <$> forEach tracked pass' loops out items := by
  induction items generalizing loops out with
  | nil => rfl
  | cons item rest ih =>
      rw [followEach, forEach, map_bind, map_bind]
      refine bind_of_map_eq (h _ item out) (fun course : Course =>
        if course.1.goesOn loop then
          Prod.fst <$> followEach loop tracked pass (if tracked then loops.advance else loops)
            course.2 rest
        else return course) (fun followed => ?_) fun progress => ?_
      · obtain ⟨⟨aim, out⟩, visits⟩ := followed
        cases hAim : aim.goesOn loop <;> simp [hAim, Passes.after]
      · obtain ⟨flow, out⟩ := progress
        have hFlow := goesOn_aimedAt loop flow
        cases hGoes : flow.goesOn <;> simp [Progress.aimedAt, hFlow, hGoes, ih]

theorem followWhile_aimed (loop : Nat) (test : Rendering Value → Run Bool)
    {pass : Rendering Value → Run Followed} {pass' : Rendering Value → Run Progress}
    (h : ∀ out, Prod.fst <$> pass out = Progress.aimedAt loop <$> pass' out) (most : Nat)
    (out : Rendering Value) :
    Prod.fst <$> followWhile loop test pass most out =
      Progress.aimedAt loop <$> whileHolds test pass' most out := by
  induction most generalizing out with
  | zero =>
      rw [followWhile, whileHolds, map_bind, map_bind]
      refine bind_congr fun holds => ?_
      cases holds <;> rfl
  | succ most ih =>
      rw [followWhile, whileHolds, map_bind, map_bind]
      refine bind_congr fun holds => ?_
      cases holds with
      | false => rfl
      | true =>
          rw [if_pos rfl, if_pos rfl, map_bind, map_bind]
          refine bind_of_map_eq (h out) (fun course : Course =>
            if course.1.goesOn loop then
              Prod.fst <$> followWhile loop test pass most course.2
            else return course) (fun followed => ?_) fun progress => ?_
          · obtain ⟨⟨aim, out⟩, visits⟩ := followed
            cases hAim : aim.goesOn loop <;> simp [hAim, Passes.after]
          · obtain ⟨flow, out⟩ := progress
            have hFlow := goesOn_aimedAt loop flow
            cases hGoes : flow.goesOn <;> simp [Progress.aimedAt, hFlow, hGoes, ih]

/-- After the passes of a loop, the `else` is executed, or the jump that ended them stops here. -/
theorem followLoop_aimed (around : Nat) (scene : Scene) {otherwise : Option (List Instr)}
    (h : ∀ out, Prod.fst <$> followOptional services around scene out otherwise =
      Progress.aimedAt around <$> executeOptional services scene out otherwise)
    {loop : Run Passes} {other : Run Progress}
    (hLoop : Prod.fst <$> loop = Progress.aimedAt (around + 1) <$> other) :
    Prod.fst <$> (do
      let passes ← loop
      followLoop (around + 1) (fun out => followOptional services around scene out otherwise)
        passes) =
    Progress.aimedAt around <$> (do
      let (flow, out) ← other
      match flow with
      | .normal => executeOptional services scene out otherwise
      | .returned value => return (.returned value, out)
      | _ => return (.normal, out)) := by
  rw [map_bind, map_bind]
  refine bind_of_map_eq hLoop (fun course : Course =>
    match course with
    | (.normal, out) => Prod.fst <$> followOptional services around scene out otherwise
    | (aim, out) => return (aim.stopAt (around + 1), out)) (fun passes => ?_) fun progress => ?_
  · obtain ⟨⟨aim, out⟩, aims, visits⟩ := passes
    cases aim <;> simp [followLoop]
  · obtain ⟨flow, out⟩ := progress
    cases flow <;> simp [Progress.aimedAt, Flow.aimedAt, Aim.stopAt, h]

theorem map_fst_pair_nil (around : Nat) (action : Run Progress) :
    Prod.fst <$> (fun progress : Progress =>
      ((progress.aimedAt around, []) : Followed)) <$> action = Progress.aimedAt around <$> action :=
  (comp_map _ _ action).symm

mutual

/-- Execution by number is execution: the jumps in the body of so many loops are aimed at the
innermost one of them. -/
theorem follow_aimed (around : Nat) (scene : Scene) (out : Rendering Value) : ∀ instr : Instr,
    Prod.fst <$> follow services around scene out instr =
      Progress.aimedAt around <$> execute services scene out instr
  | .branch branches otherwise => by
      rw [follow, execute, map_bind, map_bind]
      refine bind_of_map_eq (followBranches_aimed around scene out branches)
        (fun found : Option Course =>
          match found with
          | some course => return course
          | none => Prod.fst <$> followOptional services around scene out otherwise)
        (fun found => ?_) fun found => ?_
      · cases found <;> simp
      · cases found with
        | none => exact (followOptional_aimed around scene out otherwise).symm
        | some progress => rfl
  | .forLoop target items body otherwise tracked => by
      rw [follow, execute, map_bind, map_bind]
      refine bind_congr fun source => ?_
      rw [map_bind, map_bind]
      refine bind_congr fun items => ?_
      refine followLoop_aimed services around scene
        (fun out => followOptional_aimed around scene out otherwise) ?_
      refine followEach_aimed (around + 1) tracked (fun loops item out => ?_) _ out items
      rw [map_bind, map_bind]
      exact bind_congr fun _ => followAll_aimed (around + 1) { scene with loops } out body
  | .whileLoop test body otherwise => by
      rw [follow, execute, map_bind, map_bind]
      refine bind_congr fun setting => ?_
      refine followLoop_aimed services around scene
        (fun out => followOptional_aimed around scene out otherwise) ?_
      exact followWhile_aimed (around + 1) _
        (fun out => followAll_aimed (around + 1) scene out body) _ out
  | .breakLoop => rfl
  | .continueLoop => rfl
  | .text _ => map_fst_pair_nil around _
  | .emit .. => map_fst_pair_nil around _
  | .execute _ => map_fst_pair_nil around _
  | .define .. => map_fst_pair_nil around _
  | .setVar .. => map_fst_pair_nil around _
  | .setFragment .. => map_fst_pair_nil around _
  | .returnValue _ => map_fst_pair_nil around _

theorem followAll_aimed (around : Nat) (scene : Scene) (out : Rendering Value) :
    ∀ instrs : List Instr, Prod.fst <$> followAll services around scene out instrs =
      Progress.aimedAt around <$> executeAll services scene out instrs
  | [] => rfl
  | instr :: rest => by
      rw [followAll, executeAll, map_bind, map_bind]
      refine bind_of_map_eq (follow_aimed around scene out instr) (fun course : Course =>
        match course with
        | (.normal, out) => Prod.fst <$> followAll services around scene out rest
        | course => return course) (fun followed => ?_) fun progress => ?_
      · obtain ⟨⟨aim, out⟩, visits⟩ := followed
        cases aim <;> simp
      · obtain ⟨flow, out⟩ := progress
        cases flow with
        | normal => exact (followAll_aimed around scene out rest).symm
        | _ => rfl

theorem followOptional_aimed (around : Nat) (scene : Scene) (out : Rendering Value) :
    ∀ body : Option (List Instr), Prod.fst <$> followOptional services around scene out body =
      Progress.aimedAt around <$> executeOptional services scene out body
  | none => rfl
  | some body => by
      rw [followOptional, executeOptional]
      exact followAll_aimed around scene out body

theorem followBranches_aimed (around : Nat) (scene : Scene) (out : Rendering Value) :
    ∀ branches : List (Expr × List Instr),
    Option.map Prod.fst <$> followBranches services around scene out branches =
      Option.map (Progress.aimedAt around) <$> executeBranches services scene out branches
  | [] => rfl
  | (test, body) :: rest => by
      rw [followBranches, executeBranches, map_bind, map_bind]
      refine bind_congr fun holds => ?_
      cases holds.truthy with
      | true =>
          rw [if_pos rfl, if_pos rfl, ← comp_map, ← comp_map]
          show (some ∘ Prod.fst) <$> _ = (some ∘ Progress.aimedAt around) <$> _
          rw [comp_map, comp_map, followAll_aimed around scene out body]
      | false => exact followBranches_aimed around scene out rest

end

/-! ## Visits are in order -/

variable {services} {loop around : Nat}

theorem goesOn_iff {aim : Aim} (h : ∃ flow : Flow, aim = flow.aimedAt loop) :
    aim.goesOn loop = true ↔ aim ≠ .leave loop ∧ ∀ value, aim ≠ .returned value := by
  obtain ⟨flow, rfl⟩ := h
  cases flow <;> simp [Flow.aimedAt, Aim.goesOn]

/-- The passes of a loop so far: each ended with a jump that is aimed at the loop, at most the last
one left it, and the course is that of the last pass, or normal when they are used up. -/
structure Passes.IsOrderly (loop : Nat) (passes : Passes) : Prop where
  aims : ∀ aim ∈ passes.2.1, ∃ flow : Flow, aim = flow.aimedAt loop
  goesOn : ∀ aim ∈ passes.2.1.dropLast, aim.goesOn loop = true
  course : passes.1.1 = .normal ∧ (∀ aim ∈ passes.2.1, aim.goesOn loop = true) ∨
    passes.1.1.goesOn loop = false ∧ passes.1.1 ∈ passes.2.1
  visits : ∀ visit ∈ passes.2.2, visit.IsOrderly

theorem Passes.IsOrderly.nothing (out : Rendering Value) :
    Passes.IsOrderly loop ((.normal, out), [], []) :=
  ⟨by simp, by simp, .inl ⟨rfl, by simp⟩, by simp⟩

/-- A course whose flow is that of one in the body of so many loops, and orderly visits. -/
def Followed.IsOrderly (around : Nat) (followed : Followed) : Prop :=
  (∃ flow : Flow, followed.1.1 = flow.aimedAt around) ∧ ∀ visit ∈ followed.2, visit.IsOrderly

theorem Passes.IsOrderly.last {aim : Aim} {out : Rendering Value} {visits : List Visit}
    (h : Followed.IsOrderly loop ((aim, out), visits)) (hStop : aim.goesOn loop = false) :
    Passes.IsOrderly loop ((aim, out), [aim], visits) :=
  ⟨List.forall_mem_singleton.2 h.1, by simp, .inr ⟨hStop, List.mem_singleton_self _⟩, h.2⟩

theorem Passes.IsOrderly.after {aim : Aim} {out : Rendering Value} {visits : List Visit}
    {passes : Passes} (h : Followed.IsOrderly loop ((aim, out), visits))
    (hGoes : aim.goesOn loop = true) (hRest : passes.IsOrderly loop) :
    (passes.after aim visits).IsOrderly loop := by
  obtain ⟨course, aims, more⟩ := passes
  refine ⟨List.forall_mem_cons.2 ⟨h.1, hRest.aims⟩, fun other hOther => ?_, ?_,
    List.forall_mem_append.2 ⟨h.2, hRest.visits⟩⟩
  · cases aims with
    | nil => cases hOther
    | cons next others =>
        rcases List.mem_cons.1 hOther with rfl | hOther
        · exact hGoes
        · exact hRest.goesOn other hOther
  · rcases hRest.course with ⟨hNormal, hAll⟩ | ⟨hStop, hMem⟩
    · exact .inl ⟨hNormal, List.forall_mem_cons.2 ⟨hGoes, hAll⟩⟩
    · exact .inr ⟨hStop, List.mem_cons_of_mem _ hMem⟩

theorem orderly_followEach {tracked : Bool}
    {pass : Loops → Value → Rendering Value → Run Followed}
    (h : ∀ loops item out, Ensures (Followed.IsOrderly loop) (pass loops item out)) (loops : Loops)
    (out : Rendering Value) (items : List Value) :
    Ensures (Passes.IsOrderly loop) (followEach loop tracked pass loops out items) := by
  induction items generalizing loops out with
  | nil => exact .pure (.nothing out)
  | cons item rest ih =>
      refine (h _ item out).bind fun followed hFollowed => ?_
      obtain ⟨⟨aim, out'⟩, visits⟩ := followed
      refine .ite (fun hGoes => .map ?_) fun hStop => ?_
      · exact (ih _ out').mono fun passes hPasses => hPasses.after hFollowed hGoes
      · exact .pure (.last hFollowed (Bool.not_eq_true _ ▸ hStop))

theorem orderly_followWhile {test : Rendering Value → Run Bool}
    {pass : Rendering Value → Run Followed}
    (h : ∀ out, Ensures (Followed.IsOrderly loop) (pass out)) (most : Nat)
    (out : Rendering Value) :
    Ensures (Passes.IsOrderly loop) (followWhile loop test pass most out) := by
  induction most generalizing out with
  | zero =>
      refine .andThen fun holds => .ite (fun _ => ?_) fun _ => .pure (.nothing out)
      rintro passes ⟨setting, before, after, hThrow⟩
      cases hThrow
  | succ most ih =>
      refine .andThen fun holds => .ite (fun _ => ?_) fun _ => .pure (.nothing out)
      refine (h out).bind fun followed hFollowed => ?_
      obtain ⟨⟨aim, out'⟩, visits⟩ := followed
      refine .ite (fun hGoes => .map ?_) fun hStop => ?_
      · exact (ih out').mono fun passes hPasses => hPasses.after hFollowed hGoes
      · exact .pure (.last hFollowed (Bool.not_eq_true _ ▸ hStop))

/-- After its passes the loop is visited, and its `else` was carried out when no pass left it. -/
theorem orderly_followLoop {otherwise : Rendering Value → Run Followed} {passes : Run Passes}
    (hPasses : Ensures (Passes.IsOrderly (around + 1)) passes)
    (h : ∀ out, Ensures (Followed.IsOrderly around) (otherwise out)) :
    Ensures (Followed.IsOrderly around) (passes >>= followLoop (around + 1) otherwise) := by
  refine hPasses.bind fun passes hPasses => ?_
  obtain ⟨⟨aim, out⟩, aims, visits⟩ := passes
  rcases hPasses.course with ⟨hNormal, hAll⟩ | ⟨hStop, hMem⟩
  · have hVisit : Visit.IsOrderly ⟨around + 1, aims, true⟩ :=
      ⟨hPasses.aims, hPasses.goesOn, iff_of_true rfl fun aim hAim =>
        (goesOn_iff (hPasses.aims aim hAim)).1 (hAll aim hAim)⟩
    obtain rfl : aim = .normal := hNormal
    refine (h out).bind fun followed hFollowed => .pure ⟨hFollowed.1, ?_⟩
    exact List.forall_mem_append.2
      ⟨hPasses.visits, List.forall_mem_cons.2 ⟨hVisit, hFollowed.2⟩⟩
  · have hStop : aim.goesOn (around + 1) = false := hStop
    have hVisit : Visit.IsOrderly ⟨around + 1, aims, false⟩ := by
      refine ⟨hPasses.aims, hPasses.goesOn, iff_of_false Bool.false_ne_true fun hAll => ?_⟩
      have hGoes := (goesOn_iff (hPasses.aims aim hMem)).2 (hAll aim hMem)
      rw [hStop] at hGoes
      cases hGoes
    have hVisits := List.forall_mem_append.2
      ⟨hPasses.visits, List.forall_mem_singleton.2 hVisit⟩
    obtain ⟨flow, rfl⟩ : ∃ flow : Flow, aim = flow.aimedAt (around + 1) := hPasses.aims aim hMem
    rw [goesOn_aimedAt] at hStop
    cases flow with
    | broke => exact .pure ⟨⟨.normal, if_pos rfl⟩, hVisits⟩
    | returned value => exact .pure ⟨⟨.returned value, rfl⟩, hVisits⟩
    | _ => cases hStop

theorem orderly_single (around : Nat) (action : Run Progress) :
    Ensures (Followed.IsOrderly around)
      ((fun progress : Progress => ((progress.aimedAt around, []) : Followed)) <$> action) :=
  .map fun progress _ => ⟨⟨progress.1, rfl⟩, by simp⟩

mutual

theorem orderly_follow (around : Nat) (scene : Scene) (out : Rendering Value) : ∀ instr : Instr,
    Ensures (Followed.IsOrderly around) (follow services around scene out instr)
  | .branch branches otherwise => by
      rw [follow]
      refine (orderly_followBranches around scene out branches).bind fun found hFound => ?_
      cases found with
      | some followed => exact .pure (hFound followed rfl)
      | none => exact orderly_followOptional around scene out otherwise
  | .forLoop target items body otherwise tracked => by
      rw [follow]
      refine .andThen fun source => .andThen fun items => orderly_followLoop ?_ fun out =>
        orderly_followOptional around scene out otherwise
      refine orderly_followEach (fun loops item out => .andThen fun _ => ?_) _ out items
      exact orderly_followAll (around + 1) { scene with loops } out body
  | .whileLoop test body otherwise => by
      rw [follow]
      refine .andThen fun setting => orderly_followLoop ?_ fun out =>
        orderly_followOptional around scene out otherwise
      exact orderly_followWhile (fun out => orderly_followAll (around + 1) scene out body) _ out
  | .breakLoop => .pure ⟨⟨.broke, rfl⟩, by simp⟩
  | .continueLoop => .pure ⟨⟨.continued, rfl⟩, by simp⟩
  | .text _ => orderly_single around _
  | .emit .. => orderly_single around _
  | .execute _ => orderly_single around _
  | .define .. => orderly_single around _
  | .setVar .. => orderly_single around _
  | .setFragment .. => orderly_single around _
  | .returnValue _ => orderly_single around _

/-- Wherever instructions are executed, the loops that are visited are in order. -/
theorem orderly_followAll (around : Nat) (scene : Scene) (out : Rendering Value) :
    ∀ instrs : List Instr,
    Ensures (Followed.IsOrderly around) (followAll services around scene out instrs)
  | [] => .pure ⟨⟨.normal, rfl⟩, by simp⟩
  | instr :: rest => by
      rw [followAll]
      refine (orderly_follow around scene out instr).bind fun followed hFollowed => ?_
      obtain ⟨⟨aim, out'⟩, visits⟩ := followed
      cases aim with
      | normal =>
          refine (orderly_followAll around scene out' rest).bind fun others hOthers => ?_
          exact .pure ⟨hOthers.1, List.forall_mem_append.2 ⟨hFollowed.2, hOthers.2⟩⟩
      | _ => exact .pure hFollowed

theorem orderly_followOptional (around : Nat) (scene : Scene) (out : Rendering Value) :
    ∀ body : Option (List Instr),
    Ensures (Followed.IsOrderly around) (followOptional services around scene out body)
  | none => .pure ⟨⟨.normal, rfl⟩, by simp⟩
  | some body => by
      rw [followOptional]
      exact orderly_followAll around scene out body

theorem orderly_followBranches (around : Nat) (scene : Scene) (out : Rendering Value) :
    ∀ branches : List (Expr × List Instr),
    Ensures (fun found : Option Followed => ∀ followed ∈ found, followed.IsOrderly around)
      (followBranches services around scene out branches)
  | [] => .pure fun followed hFollowed => absurd hFollowed (Option.not_mem_none followed)
  | (test, body) :: rest => by
      rw [followBranches]
      refine .andThen fun holds => .ite (fun _ => .map ?_) fun _ => ?_
      · refine (orderly_followAll around scene out body).mono fun followed hFollowed => ?_
        rintro _ ⟨⟩
        exact hFollowed
      · exact orderly_followBranches around scene out rest

end

end Following

end Stencil
