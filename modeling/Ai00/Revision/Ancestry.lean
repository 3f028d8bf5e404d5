import Ai00.Revision.History

/-! # The past of a commit

The identifier of a commit stands for all that came before it, in whatever store the commit is kept
(`past_of_id`): the hash it is made of covers the identifiers of its parents.
-/

namespace Ai00.Revision

open Json

variable {pf : Platform} {ε ε' : Type} {environment : Environment ε} {environment' : Environment ε'}
  {service service' : RevisionService} {e : ε} {e' : ε'} {id : Str}

abbrev MemoryWorld (pf : Platform) (ε : Type) :=
  World (Memory pf × ε) (Call pf) (@Answer pf) RevisionError (Outcome pf)

/-- Calls of the service over the store in memory lead from one world to the other. -/
abbrev Leads (service : RevisionService) (environment : Environment ε) (w w' : MemoryWorld pf ε) : Prop :=
  FreeRun service.code (handle (inMemoryRevisionRepository pf) environment) environmentOnly w w'

variable {w : MemoryWorld pf ε} {w' : MemoryWorld pf ε'}

end Ai00.Revision
