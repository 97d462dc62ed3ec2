import LklSocks.Machine.Runs

/-!
# Pipes

A pipe takes items at one end and gives them out at the other, in order. At any time it has put
out a prefix of what it took in, and the rest is inside. A program that moves data from a source
to a sink is correct when its runs are runs of a pipe.

## Main definitions

* `Pipe`: what went in and what came out
* `Pipe.inside`: what went in and did not yet come out
* `Pipe.machine`: putting items in and taking the next items out

## Main results

* `Pipe.output_prefix`: the output is a prefix of the input
-/

universe u

/-- The items that went in and the items that came out. -/
structure Pipe (α : Type u) where
  input : List α
  output : List α

/-- Putting items in, and taking the next `n` out. -/
inductive PipeAction (α : Type u)
  | put (items : List α)
  | take (n : ℕ)

namespace Pipe

variable {α : Type u}

/-- The items that went in and did not yet come out. -/
def inside (p : Pipe α) : List α := p.input.drop p.output.length

def machine : Machine (Pipe α) (PipeAction α) where
  init p := p = ⟨[], []⟩
  step p
    | .put items => some ⟨p.input ++ items, p.output⟩
    | .take n => some ⟨p.input, p.output ++ p.inside.take n⟩

/-- **A pipe keeps order**: its output is a prefix of its input. -/
theorem output_prefix {p : Pipe α} (h : machine.Reachable p) : p.output <+: p.input := by
  refine h.invariant (P := fun p => p.output <+: p.input) ?_ ?_
  · rintro _ rfl
    exact List.prefix_rfl
  · intro p a q _ hp ha
    obtain ⟨rest, hr⟩ := hp
    cases a with
    | put items =>
      obtain rfl : (⟨p.input ++ items, p.output⟩ : Pipe α) = q := Option.some.inj ha
      exact (List.prefix_append p.output rest).trans (hr ▸ List.prefix_append _ _)
    | take n =>
      obtain rfl : (⟨p.input, p.output ++ p.inside.take n⟩ : Pipe α) = q := Option.some.inj ha
      refine ⟨rest.drop n, ?_⟩
      have hi : p.inside = rest := by rw [inside, ← hr, List.drop_left]
      rw [hi, List.append_assoc, List.take_append_drop, hr]

end Pipe
