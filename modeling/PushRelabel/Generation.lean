/-! # Generations of tasks

A generation is a list of tasks that are all finished before the next generation
starts. A generation with a failed task fails as a whole.
-/

namespace PushRelabel

variable {τ ε : Type}

/-- Runs each task once, in order; what each leaves behind is there for the next
generation. -/
def runGeneration (run : τ → Except ε τ) (tasks : List τ) : Except ε (List τ) := tasks.mapM run

end PushRelabel
