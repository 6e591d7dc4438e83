import Mathlib.Data.Set.Finite.Basic
import Mathlib.Logic.Hydra
import Mathlib.Order.WellFounded

set_option autoImplicit false

namespace Worklist

open Relation

variable {α σ : Type*} {r : α → α → Prop}

end Worklist
