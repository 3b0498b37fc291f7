import Mathlib.Logic.Relation
import JobChart.Chart.Line

/-!
# Ways along edges

What leads where in a piece of graph, given by nothing but its edges. Ids that
are no nodes, such as those of boxes, count alike.
-/

namespace JobChart.Diagram

open Relation Chart

/-- One of these edges leads from the first id to the second. -/
def Follows (es : List Edge) (a b : String) : Prop := ∃ e ∈ es, e.source = a ∧ e.target = b

/-- These edges lead from the first id to the second, in any number of steps. -/
def Reaches (es : List Edge) : String → String → Prop := ReflTransGen (Follows es)

variable {es es' : List Edge} {a b : String}

theorem Follows.mono (hsub : ∀ e ∈ es, e ∈ es') (h : Follows es a b) : Follows es' a b := by
  obtain ⟨e, he, hends⟩ := h
  exact ⟨e, hsub e he, hends⟩

theorem Reaches.mono (hsub : ∀ e ∈ es, e ∈ es') (h : Reaches es a b) : Reaches es' a b :=
  ReflTransGen.mono (fun _ _ => Follows.mono hsub) _ _ h

end JobChart.Diagram
