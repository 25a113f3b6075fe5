import Mathlib.Data.List.Basic

/-!
What ingesting a record reports back to its connector.
-/

namespace Regenic.Ingest

inductive IngestRecordStatus where
  | accepted
  | duplicate
  | quarantined
  | retryableFailure
  deriving DecidableEq, Repr

inductive IngestErrorCode where
  | invalidEnvelope
  | invalidRecord
  | connectorMismatch
  | authorityBoundaryMismatch
  | principalUnresolved
  | scopeUnresolved
  | contentUnavailable
  | sourceIdentityConflict
  | concurrentSourceUpdate
  | internalError
  | unsupportedRecordType
  deriving DecidableEq, Repr

structure IngestRecordResult where
  externalId : String
  status : IngestRecordStatus
  eventId : Option String := none
  errorCode : Option IngestErrorCode := none
  deriving DecidableEq, Repr

/-- The counters of `ingestAttemptSummary`. -/
structure IngestAttemptSummary where
  acceptedCount : Nat
  duplicateCount : Nat
  quarantinedCount : Nat
  retryableFailureCount : Nat
  errorCode : Option IngestErrorCode
  deriving DecidableEq, Repr

def ingestAttemptSummary (records : List IngestRecordResult) : IngestAttemptSummary where
  acceptedCount := records.countP (·.status = .accepted)
  duplicateCount := records.countP (·.status = .duplicate)
  quarantinedCount := records.countP (·.status = .quarantined)
  retryableFailureCount := records.countP (·.status = .retryableFailure)
  errorCode := (records.find? (·.status = .retryableFailure)).bind (·.errorCode)

end Regenic.Ingest
