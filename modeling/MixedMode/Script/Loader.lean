import MixedMode.Loader
import MixedMode.Script.Body
/-!
# Loaders of scripted modules

The journal counts how often a loader is asked.
-/
namespace MixedMode.Script

/-- A loader whose questions the journal counts. -/
def counted {β : Type} (inner : Loader β Journal) : Loader β Journal := fun path w =>
  inner path { w with kept := w.kept.countQuestion }

end MixedMode.Script
