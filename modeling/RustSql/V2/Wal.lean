import Std.Data.ExtTreeMap
import RustSql.V2.Page

/-!
# The write-ahead log of the V2 store

A log is a run of records: page frames and commit marks. Recovery parses the
bytes front to back, keeps the frames of each transaction until its commit mark
arrives, and stops without an error at the first record that is cut short. The
parser is shown to compute `replay` of the records that lie wholly inside the
log, for every byte prefix of every log.
-/

namespace RustSql.V2

open Std (ExtTreeMap)

/-- `RECORD_FRAME`. -/
def recordFrame : UInt8 := 1

/-- `RECORD_COMMIT`. -/
def recordCommit : UInt8 := 2

/-- A page image logged for a transaction. -/
structure WalFrame (P : Type) where
  txnId : ℕ
  pageId : PageId
  page : P
  deriving DecidableEq

/-- The two kinds of log records. -/
inductive WalRecord (P : Type) where
  /-- A page image. -/
  | frame (frame : WalFrame P)
  /-- The transaction is complete and logged this many frames. -/
  | commit (txnId frameCount : ℕ)
  deriving DecidableEq

variable {P : Type}

/-- Frames read so far, by transaction, that wait for a commit mark. -/
abbrev Pending (P : Type) := ExtTreeMap ℕ (List (WalFrame P)) compare

/-- `pending.entry(txn_id).or_default().push(frame)`. -/
def Pending.push (pending : Pending P) (frame : WalFrame P) : Pending P :=
  pending.insert frame.txnId ((pending[frame.txnId]?).getD []++[frame])

/-- The frames a commit mark releases: all of the transaction's when their
number matches, otherwise none. Either way they stop waiting. -/
def Pending.settle (pending : Pending P) (txnId frameCount : ℕ) : List (WalFrame P) :=
  match pending[txnId]? with
  | some frames => if frames.length=frameCount then frames else []
  | none => []

/-- What recovery collects from a run of whole records. -/
def replayFrom : List (WalRecord P) → Pending P → List (WalFrame P) → List (WalFrame P)
  | [], _, committed => committed
  | .frame frame :: rest, pending, committed => replayFrom rest (pending.push frame) committed
  | .commit txnId frameCount :: rest, pending, committed =>
    replayFrom rest (pending.erase txnId) (committed++pending.settle txnId frameCount)

/-- `replayFrom` at the start of a log. -/
def replay (records : List (WalRecord P)) : List (WalFrame P) := replayFrom records ∅ []

/-! ## The byte format -/

/-- `write_frame`. -/
def writeFrame (out : Bytes) (txnId : ℕ) (pageId : PageId) (page : Bytes) :
    Except DbError Bytes :=
  if page.length≠pageSize then
    .error (.storage s!"wal frames must contain exactly {pageSize} bytes")
  else .ok (out++recordFrame::(encodeLe 8 txnId++encodeLe 4 pageId++encodeLe 4 page.length++page))

/-- `write_commit`. -/
def writeCommit (out : Bytes) (txnId frameCount : ℕ) : Bytes :=
  out++recordCommit::(encodeLe 8 txnId++encodeLe 4 frameCount)

/-- The loop of `recover_frames` on the bytes from the current offset on. Every
round reads at least the record type, so `fuel` never runs out before the bytes. -/
def recoverFrom : ℕ → Bytes → Pending BytePage → List (WalFrame BytePage) →
    Except DbError (List (WalFrame BytePage))
  | 0, _, _, committed => .ok committed
  | _+1, [], _, committed => .ok committed
  | fuel+1, recordType::rest, pending, committed =>
    if recordType=recordFrame then
      if rest.length < 8+4+4 then .ok committed
      else
        let txnId := decodeLe (slice rest 0 8)
        let pageId := decodeLe (slice rest 8 4)
        let pageLen := decodeLe (slice rest 12 4)
        let rest := rest.drop 16
        if hl : rest.length < pageLen then .ok committed
        else if hp : pageLen≠pageSize then
          .error (.storage
            s!"wal frame for page {pageId} had {pageLen} bytes instead of {pageSize}")
        else
          have hpage : (rest.take pageLen).length=pageSize := by
            rw [List.length_take]
            omega
          recoverFrom fuel (rest.drop pageLen)
            (pending.push ⟨txnId,pageId,⟨rest.take pageLen,hpage⟩⟩) committed
    else if recordType=recordCommit then
      if rest.length < 8+4 then .ok committed
      else
        let txnId := decodeLe (slice rest 0 8)
        let frameCount := decodeLe (slice rest 8 4)
        recoverFrom fuel (rest.drop 12) (pending.erase txnId)
          (committed++pending.settle txnId frameCount)
    else .error (.storage s!"unknown storage_v2 wal record type: {recordType.toNat}")

/-- `recover_frames`. -/
def recoverFrames (bytes : Bytes) : Except DbError (List (WalFrame BytePage)) :=
  recoverFrom bytes.length bytes ∅ []

/-- The bytes of one record. -/
def WalRecord.bytes : WalRecord BytePage → Bytes
  | .frame f => recordFrame::(encodeLe 8 f.txnId++encodeLe 4 f.pageId++
      encodeLe 4 f.page.val.length++f.page.val)
  | .commit txnId frameCount => recordCommit::(encodeLe 8 txnId++encodeLe 4 frameCount)

/-- The record's numbers fit the integers that hold them. -/
def WalRecord.InRange : WalRecord P → Prop
  | .frame f => f.txnId < 2^64 ∧ f.pageId < 2^32
  | .commit txnId frameCount => txnId < 2^64 ∧ frameCount < 2^32

/-- The bytes of a run of records. -/
def logBytes (records : List (WalRecord BytePage)) : Bytes := records.flatMap WalRecord.bytes

/-- `write_frame` appends the bytes of a frame record. -/
theorem writeFrame_eq (out : Bytes) (txnId : ℕ) (pageId : PageId) (page : BytePage) :
    writeFrame out txnId pageId page.val=.ok (out++(WalRecord.frame ⟨txnId,pageId,page⟩).bytes) := by
  simp only [writeFrame,page.property,ne_eq,not_true_eq_false,if_false,WalRecord.bytes]

/-! ## Reading the fields back -/

/-- The header of a frame parses back, whatever follows it. -/
theorem frameHeader_fields {txnId pageId len : ℕ} (ht : txnId < 2^64) (hp : pageId < 2^32)
    (hl : len < 2^32) (rest : Bytes) :
    let bytes := encodeLe 8 txnId++encodeLe 4 pageId++encodeLe 4 len++rest
    decodeLe (slice bytes 0 8)=txnId ∧ decodeLe (slice bytes 8 4)=pageId ∧
      decodeLe (slice bytes 12 4)=len ∧ bytes.drop 16=rest := by
  have h8 := encodeLe_length 8 txnId
  have h4 := encodeLe_length 4 pageId
  have h4' := encodeLe_length 4 len
  have e1 : slice (encodeLe 8 txnId++encodeLe 4 pageId++encodeLe 4 len++rest) 0 8=
      encodeLe 8 txnId := by
    rw [slice,List.drop_zero,List.append_assoc,List.append_assoc,List.take_left' h8]
  have e2 : slice (encodeLe 8 txnId++encodeLe 4 pageId++encodeLe 4 len++rest) 8 4=
      encodeLe 4 pageId := by
    rw [slice,List.append_assoc,List.append_assoc,List.drop_left' h8,List.take_left' h4]
  have e3 : slice (encodeLe 8 txnId++encodeLe 4 pageId++encodeLe 4 len++rest) 12 4=
      encodeLe 4 len := by
    have h12 : (encodeLe 8 txnId++encodeLe 4 pageId).length=12 := by
      rw [List.length_append,h8,h4]
    rw [slice,List.append_assoc,List.drop_left' h12,List.take_left' h4']
  have e4 : (encodeLe 8 txnId++encodeLe 4 pageId++encodeLe 4 len++rest).drop 16=rest := by
    have h16 : (encodeLe 8 txnId++encodeLe 4 pageId++encodeLe 4 len).length=16 := by
      rw [List.length_append,List.length_append,h8,h4,h4']
    exact List.drop_left' h16
  simp only [e1,e2,e3]
  exact ⟨decodeLe_encodeLe ht,decodeLe_encodeLe hp,decodeLe_encodeLe hl,e4⟩

variable {txnId frameCount : ℕ} {tail bytes : Bytes} {records : List (WalRecord BytePage)}

/-- A commit mark parses back, whatever follows it. -/
theorem commitMark_fields (ht : txnId < 2^64) (hc : frameCount < 2^32) (rest : Bytes) :
    let bytes := encodeLe 8 txnId++encodeLe 4 frameCount++rest
    decodeLe (slice bytes 0 8)=txnId ∧ decodeLe (slice bytes 8 4)=frameCount ∧
      bytes.drop 12=rest := by
  have h8 := encodeLe_length 8 txnId
  have h4 := encodeLe_length 4 frameCount
  have e1 : slice (encodeLe 8 txnId++encodeLe 4 frameCount++rest) 0 8=encodeLe 8 txnId := by
    rw [slice,List.drop_zero,List.append_assoc,List.take_left' h8]
  have e2 : slice (encodeLe 8 txnId++encodeLe 4 frameCount++rest) 8 4=encodeLe 4 frameCount := by
    rw [slice,List.append_assoc,List.drop_left' h8,List.take_left' h4]
  have e3 : (encodeLe 8 txnId++encodeLe 4 frameCount++rest).drop 12=rest := by
    have h12 : (encodeLe 8 txnId++encodeLe 4 frameCount).length=12 := by
      rw [List.length_append,h8,h4]
    exact List.drop_left' h12
  simp only [e1,e2]
  exact ⟨decodeLe_encodeLe ht,decodeLe_encodeLe hc,e3⟩

/-- One round on a whole frame. -/
theorem recoverFrom_frame (fuel : ℕ) {frame : WalFrame BytePage} (rest : Bytes)
    (pending : Pending BytePage) (committed : List (WalFrame BytePage))
    (h : (WalRecord.frame frame).InRange) :
    recoverFrom (fuel+1) ((WalRecord.frame frame).bytes++rest) pending committed=
      recoverFrom fuel rest (pending.push frame) committed := by
  obtain ⟨ht,hp⟩ := h
  have hlen : frame.page.val.length < 2^32 := by rw [frame.page.property]; decide
  obtain ⟨f1,f2,f3,f4⟩ := frameHeader_fields ht hp hlen (frame.page.val++rest)
  have hbytes : (WalRecord.frame frame).bytes++rest=recordFrame::(encodeLe 8 frame.txnId++
      encodeLe 4 frame.pageId++encodeLe 4 frame.page.val.length++(frame.page.val++rest)) := by
    simp only [WalRecord.bytes,List.cons_append,List.append_assoc]
  have hlong : ¬(encodeLe 8 frame.txnId++encodeLe 4 frame.pageId++
      encodeLe 4 frame.page.val.length++(frame.page.val++rest)).length < 8+4+4 := by
    simp only [List.length_append,encodeLe_length]
    omega
  rw [hbytes,recoverFrom,if_pos rfl,if_neg hlong]
  simp only [f1,f2,f3,f4]
  rw [dif_neg (by rw [List.length_append]; omega),dif_neg (by simp only [frame.page.property,
    ne_eq,not_true_eq_false,not_false_eq_true])]
  simp only [List.take_left' rfl,List.drop_left' rfl]

/-- One round on a whole commit mark. -/
theorem recoverFrom_commit (fuel : ℕ) (rest : Bytes)
    (pending : Pending BytePage) (committed : List (WalFrame BytePage))
    (h : (WalRecord.commit txnId frameCount : WalRecord BytePage).InRange) :
    recoverFrom (fuel+1) ((WalRecord.commit txnId frameCount).bytes++rest) pending committed=
      recoverFrom fuel rest (pending.erase txnId)
        (committed++pending.settle txnId frameCount) := by
  obtain ⟨ht,hc⟩ := h
  obtain ⟨f1,f2,f3⟩ := commitMark_fields ht hc rest
  have hbytes : (WalRecord.commit txnId frameCount).bytes++rest=
      recordCommit::(encodeLe 8 txnId++encodeLe 4 frameCount++rest) := by
    simp only [WalRecord.bytes,List.cons_append]
  have hlong : ¬(encodeLe 8 txnId++encodeLe 4 frameCount++rest).length < 8+4 := by
    simp only [List.length_append,encodeLe_length]
    omega
  rw [hbytes,recoverFrom,if_neg (by decide),if_pos rfl,if_neg hlong]
  simp only [f1,f2,f3]

/-- A record cut short ends the scan without an error and without a frame. -/
theorem recoverFrom_torn (fuel : ℕ) {record : WalRecord BytePage}
    (pending : Pending BytePage) (committed : List (WalFrame BytePage))
    (h : record.InRange) (hp : tail<+:record.bytes) (hne : tail≠record.bytes) :
    recoverFrom fuel tail pending committed=.ok committed := by
  have hlt : tail.length < record.bytes.length := by
    have hle := hp.length_le
    have hne' : tail.length≠record.bytes.length := fun he => hne (hp.eq_of_length he)
    omega
  cases fuel with
  | zero => rfl
  | succ fuel =>
    cases tail with
    | nil => rfl
    | cons recordType tail =>
      cases record with
      | frame f =>
        obtain ⟨ht,hi⟩ := h
        have hlen : f.page.val.length < 2^32 := by rw [f.page.property]; decide
        obtain ⟨rest,hrest⟩ := hp
        simp only [WalRecord.bytes,List.cons_append,List.cons.injEq] at hrest hlt
        obtain ⟨rfl,hrest⟩ := hrest
        simp only [List.length_cons,List.length_append,encodeLe_length,f.page.property] at hlt
        rw [recoverFrom,if_pos rfl]
        by_cases hs : tail.length < 8+4+4
        · rw [if_pos hs]
        · rw [if_neg hs]
          -- the header is whole, so the announced length is the page's and the page is cut
          have hlen3 : decodeLe (slice tail 12 4)=pageSize := by
            have hsl : slice tail 12 4=slice (tail++rest) 12 4 := by
              rw [slice,slice,List.drop_append_of_le_length (by omega),
                List.take_append_of_le_length (by rw [List.length_drop]; omega)]
            rw [hsl,hrest]
            have f3 := (frameHeader_fields ht hi hlen f.page.val).2.2.1
            rw [f3,f.page.property]
          simp only [hlen3]
          rw [dif_pos (by rw [List.length_drop]; omega)]
      | commit txnId frameCount =>
        obtain ⟨rest,hrest⟩ := hp
        simp only [WalRecord.bytes,List.cons_append,List.cons.injEq] at hrest hlt
        obtain ⟨rfl,hrest⟩ := hrest
        simp only [List.length_cons,List.length_append,encodeLe_length] at hlt
        rw [recoverFrom,if_neg (by decide),if_pos rfl,if_pos (by omega)]

/-! ## Whole logs and their prefixes -/

/-- No record is empty. -/
theorem WalRecord.bytes_pos (record : WalRecord BytePage) : 0 < record.bytes.length := by
  cases record <;> simp only [WalRecord.bytes,List.length_cons] <;> omega

/-- Records followed by a torn one: the scan yields their replay. -/
theorem recoverFrom_records {torn : WalRecord BytePage} (hr : ∀ r∈records, r.InRange)
    (ht : torn.InRange)
    (hp : tail<+:torn.bytes) (hne : tail≠torn.bytes) {fuel : ℕ}
    (hf : (logBytes records).length ≤ fuel) (pending : Pending BytePage)
    (committed : List (WalFrame BytePage)) :
    recoverFrom fuel (logBytes records++tail) pending committed=
      .ok (replayFrom records pending committed) := by
  induction records generalizing fuel pending committed with
  | nil => exact recoverFrom_torn fuel pending committed ht hp hne
  | cons record records ih =>
    have hlog : logBytes (record::records)=record.bytes++logBytes records := by
      simp only [logBytes,List.flatMap_cons]
    rw [hlog,List.length_append] at hf
    have hpos := record.bytes_pos
    obtain ⟨fuel,rfl⟩ : ∃ n, fuel=n+1 := ⟨fuel-1,by omega⟩
    have hrec := hr record (by simp)
    have ih' := ih (fun r h => hr r (by simp [h])) (by omega : (logBytes records).length ≤ fuel)
    rw [hlog,List.append_assoc]
    cases record with
    | frame f => rw [recoverFrom_frame fuel _ pending committed hrec,ih',replayFrom]
    | commit txnId frameCount =>
      rw [recoverFrom_commit fuel _ pending committed hrec,ih',replayFrom]

/-- Every byte prefix of a log is some of its records and a torn one. -/
theorem logBytes_cut (h : bytes<+:logBytes records) (hne : bytes≠logBytes records) :
    ∃ k tail torn, records[k]?=some torn ∧ bytes=logBytes (records.take k)++tail ∧
      tail<+:torn.bytes ∧ tail≠torn.bytes := by
  induction records generalizing bytes with
  | nil => exact absurd (List.prefix_nil.mp h) hne
  | cons record records ih =>
    have hlog : logBytes (record::records)=record.bytes++logBytes records := by
      simp only [logBytes,List.flatMap_cons]
    rw [hlog] at h hne
    by_cases hl : bytes.length < record.bytes.length
    · have hp : bytes<+:record.bytes :=
        List.prefix_of_prefix_length_le h (List.prefix_append _ _) hl.le
      refine ⟨0,bytes,record,rfl,rfl,hp,?_⟩
      rintro rfl
      exact absurd hl (lt_irrefl _)
    · have hp : record.bytes<+:bytes :=
        List.prefix_of_prefix_length_le (List.prefix_append _ _) h (by omega)
      obtain ⟨rest,rfl⟩ := hp
      have hrest : rest<+:logBytes records := (List.prefix_append_right_inj _).mp h
      obtain ⟨k,tail,torn,hk,hb,ht,hn⟩ := ih hrest (fun he => hne (by rw [he]))
      refine ⟨k+1,tail,torn,by simpa using hk,?_,ht,hn⟩
      rw [hb,List.take_succ_cons]
      simp only [logBytes,List.flatMap_cons,List.append_assoc]

/-- Recovery of a whole log is the replay of its records. -/
theorem recoverFrames_log (hr : ∀ r∈records, r.InRange) :
    recoverFrames (logBytes records)=.ok (replay records) := by
  have hw : (WalRecord.commit 0 0 : WalRecord BytePage).InRange := by
    simp only [WalRecord.InRange]; omega
  have h := recoverFrom_records hr hw (List.nil_prefix) (by simp [WalRecord.bytes])
    (le_refl (logBytes records).length) ∅ []
  rwa [List.append_nil] at h

/-- Recovery of a log cut short anywhere is the replay of the records that
are whole. -/
theorem recoverFrames_cut (hr : ∀ r∈records, r.InRange) (h : bytes<+:logBytes records)
    (hne : bytes≠logBytes records) :
    ∃ k < records.length, recoverFrames bytes=.ok (replay (records.take k)) := by
  obtain ⟨k,tail,torn,hk,rfl,hp,hn⟩ := logBytes_cut h hne
  have hlt : k < records.length := (List.getElem?_eq_some_iff.mp hk).1
  refine ⟨k,hlt,?_⟩
  exact recoverFrom_records (fun r hm => hr r (List.mem_of_mem_take hm))
    (hr torn (List.mem_of_getElem? hk)) hp hn
    (by rw [List.length_append]; omega) ∅ []

end RustSql.V2
