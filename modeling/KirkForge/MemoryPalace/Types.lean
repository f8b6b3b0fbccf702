import KirkForge.Theory.JsValue

/-!
# Stored objects

The objects and rows that the memory adapters store (`memory-palace/src/types.ts`).
-/

namespace KirkForge

structure MemoryObject where
  id : String
  kind : String
  taskId : String
  runId : Option String := none
  timestamp : String
  description : String
  properties : JsMembers
  tags : List String

structure MemoryQuery where
  kind : Option String := none
  tags : Option (List String) := none
  limit : Option Nat := none
  since : Option String := none

/-- What a run and its row in a table have in common. -/
structure RunFields where
  runId : String
  taskId : String
  description : String
  language : String
  taskFamily : Option String := none
  mode : String
  model : String
  providerKey : String
  providerType : String
  baseUrl : Option String := none
  outcome : String
  outcomeClass : String
  routingLesson : String
  finalVerdict : String
  sourceOfTruth : String
  finalAction : String
  tokens : JsNumber
  durationMs : JsNumber
  turns : JsNumber
  validatorDurationMs : JsNumber
  verifierOverall : Option String := none
  filesEmitted : JsNumber
  totalBytesEmitted : JsNumber
  timestamp : String
  deriving DecidableEq

/-- A run as `writeRun` and `writeRunAndEmissions` of an adapter take it. -/
structure RunRow extends RunFields where
  emissionIds : List String
  deriving DecidableEq

structure EmittedFileRecord where
  id : Option String := none
  path : String
  sha256 : String
  bytes : Nat
  beforeHash : Option String
  existed : Bool
  timestamp : Option String := none
  deriving DecidableEq

structure EmissionRow where
  id : String
  runId : String
  taskId : String
  turn : JsNumber
  path : String
  sha256 : String
  bytes : JsNumber
  beforeHash : Option String
  existed : Bool
  timestamp : String
  deriving DecidableEq

end KirkForge
