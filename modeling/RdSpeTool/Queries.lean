import RdSpeTool.Session

/-!
# The query ioctls

`GET_LAYOUT` and the five table queries. They find a context by its position in the session, check
the index they are given and copy one row to the caller; the session stays as it is. Whether the
copies from and to the caller succeed comes with the call.
-/

namespace RdSpeTool

structure UserCopy where
  fromUser : Bool
  toUser : Bool

structure Layout where
  targetCount : ℕ
  threadCount : ℕ
  bucketCount : ℕ
  deriving DecidableEq

structure ThreadStats where
  index : ℕ
  tid : ℤ
  cpu : ℤ
  active : Bool
  candidateSamples : ℕ
  reservoirSeen : ℕ
  reservoirAccepted : ℕ
  reservoirRejected : ℕ
  hits : ℕ
  evictions : ℕ
  dropped : ℕ
  pairHistUsed : ℕ
  pairHistDropped : ℕ
  contextUsed : ℕ
  contextDropped : ℕ
  callchainFailed : ℕ
  callchainTruncated : ℕ
  dwarfEventUsed : ℕ
  dwarfEventDropped : ℕ
  dwarfStackCopyFailed : ℕ
  dwarfStackBytes : ℕ
  deriving DecidableEq

structure HistReq where
  threadIndex : ℕ
  targetIndex : ℕ
  buckets : List ℕ
  deriving DecidableEq

structure PairHistReq where
  threadIndex : ℕ
  entryIndex : ℕ
  used : Bool
  seedContextId : ℕ
  reuseContextId : ℕ
  seedPcOffset : U64
  reusePc : U64
  buckets : List ℕ
  deriving DecidableEq

structure ContextReq where
  threadIndex : ℕ
  contextId : ℕ
  used : Bool
  ips : List U64
  deriving DecidableEq

def rdFindThreadByIndex (s : Session) (index : ℕ) : Option Thread := s.threads[index]?

def rdGetLayoutLocked (s : Session) (u : UserCopy) : Except ℤ Layout :=
  if u.toUser then .ok ⟨s.targetCount, s.threads.length, log2Buckets⟩ else .error (-efault)

/-- The common frame of the table queries: both copies, and the context by its position. -/
def queryThread {α : Type} (s : Session) (u : UserCopy) (index : ℕ) (f : Thread → Except ℤ α) :
    Except ℤ α :=
  if u.fromUser = false then .error (-efault)
  else
    match rdFindThreadByIndex s index with
    | none => .error (-enoent)
    | some th =>
        match f th with
        | .error ret => .error ret
        | .ok req => if u.toUser then .ok req else .error (-efault)

def threadStatsOf (s : Session) (index : ℕ) (th : Thread) : ThreadStats where
  index := index
  tid := th.tid
  cpu := th.cpu
  active := th.active
  candidateSamples := th.candidateSamples
  reservoirSeen := th.reservoirSeen
  reservoirAccepted := th.reservoirAccepted
  reservoirRejected := th.reservoirRejected
  hits := th.hits
  evictions := th.evictions
  dropped := th.dropped
  pairHistUsed := th.pairHistUsed
  pairHistDropped := th.pairHistDropped
  contextUsed := th.contextUsed
  contextDropped := th.contextDropped
  callchainFailed := th.callchainFailed
  callchainTruncated := th.callchainTruncated
  dwarfEventUsed := th.dwarfEventUsed
  dwarfEventDropped := th.dwarfEventDropped
  dwarfStackCopyFailed := th.dwarfStackCopyFailed
  dwarfStackBytes := s.dwarfStackBytes

def rdGetThreadStatsLocked (s : Session) (u : UserCopy) (index : ℕ) : Except ℤ ThreadStats :=
  queryThread s u index fun th => .ok (threadStatsOf s index th)

def rdGetHistLocked (s : Session) (u : UserCopy) (threadIndex targetIndex : ℕ) :
    Except ℤ HistReq :=
  queryThread s u threadIndex fun th =>
    if targetIndex ≥ s.targetCount then .error (-einval)
    else .ok ⟨threadIndex, targetIndex,
      if th.log2Hist = [] then List.replicate log2Buckets 0
      else (th.log2Hist.drop (targetIndex * log2Buckets)).take log2Buckets⟩

def rdGetPairHistLocked (s : Session) (u : UserCopy) (threadIndex entryIndex : ℕ) :
    Except ℤ PairHistReq :=
  queryThread s u threadIndex fun th =>
    if entryIndex ≥ maxPairHists then .error (-einval)
    else
      -- an unused entry, like a missing table, reads as zeros
      match th.pairHist[entryIndex]? with
      | some e =>
          if e.used then .ok ⟨threadIndex, entryIndex, true, e.seedContextId, e.reuseContextId,
            e.seedPcOffset, e.reusePc, e.buckets⟩
          else .ok ⟨threadIndex, entryIndex, false, 0, 0, 0, 0, List.replicate log2Buckets 0⟩
      | none => .ok ⟨threadIndex, entryIndex, false, 0, 0, 0, 0, List.replicate log2Buckets 0⟩

def rdGetContextLocked (s : Session) (u : UserCopy) (threadIndex contextId : ℕ) :
    Except ℤ ContextReq :=
  queryThread s u threadIndex fun th =>
    if contextId = 0 ∨ contextId > maxContexts then .error (-einval)
    else
      match th.contexts[contextId - 1]? with
      | some e =>
          if e.used then .ok ⟨threadIndex, contextId, true, e.ips⟩
          else .ok ⟨threadIndex, contextId, false, []⟩
      | none => .ok ⟨threadIndex, contextId, false, []⟩

/-- `allocOk` is the outcome of allocating the reply. -/
def rdGetDwarfEventLocked (s : Session) (u : UserCopy) (allocOk : Bool)
    (threadIndex eventIndex : ℕ) : Except ℤ DwarfEvent :=
  queryThread s u threadIndex fun th =>
    if eventIndex ≥ s.dwarfEventCapacity then .error (-einval)
    else if allocOk = false then .error (-enomem)
    else
      match th.dwarfEvents.bind fun es => es[eventIndex]? with
      | some e =>
          if e.used then .ok { e with threadIndex := threadIndex, eventIndex := eventIndex }
          else .ok { DwarfEvent.zero with threadIndex := threadIndex, eventIndex := eventIndex }
      | none =>
          .ok { DwarfEvent.zero with threadIndex := threadIndex, eventIndex := eventIndex }

end RdSpeTool
