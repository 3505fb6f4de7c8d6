import RustSql.V2.Wal

/-!
# What recovery returns

The log as its writers make it: frames and commit marks of any number of transactions in any
order, each mark with the number of frames its transaction wrote since the mark before. Cut
anywhere, it is recovered to the frames of the marks that are whole.
-/

namespace RustSql.V2

variable {P : Type} {records before : List (WalRecord P)}

/-! ## The frames of a commit mark -/

/-- The record is a commit mark of the transaction. -/
def WalRecord.commits (txnId : ℕ) : WalRecord P → Bool
  | .frame _ => false
  | .commit other _ => other=txnId

/-- The record's frame, if it is one of the transaction. -/
def WalRecord.frameOf (txnId : ℕ) : WalRecord P → Option (WalFrame P)
  | .frame logged => if logged.txnId=txnId then some logged else none
  | .commit _ _ => none

/-- The frames of a transaction since its last commit mark, in the order they were written. -/
def openFrames (txnId : ℕ) (records : List (WalRecord P)) : List (WalFrame P) :=
  (records.reverse.takeWhile fun record => !record.commits txnId).reverse.filterMap
    (WalRecord.frameOf txnId)

/-- The frames of the commit marks behind some records, mark by mark. -/
def committedFrom (before : List (WalRecord P)) : List (WalRecord P) → List (WalFrame P)
  | [] => []
  | .frame frame :: rest => committedFrom (before++[.frame frame]) rest
  | .commit txnId frameCount :: rest =>
    openFrames txnId before++committedFrom (before++[.commit txnId frameCount]) rest

/-- The frames of the transactions that committed, in commit order. -/
def committedFrames (records : List (WalRecord P)) : List (WalFrame P) := committedFrom [] records

/-- Every commit mark has the number of its transaction's frames since the mark before. -/
def Counted (records : List (WalRecord P)) : Prop :=
  ∀ before txnId frameCount after, records=before++.commit txnId frameCount :: after →
    frameCount=(openFrames txnId before).length

/-- The records that lie wholly inside the first bytes of a log. -/
def wholeWithin : List (WalRecord BytePage) → ℕ → List (WalRecord BytePage)
  | [], _ => []
  | record :: rest, size =>
    if record.bytes.length ≤ size then record :: wholeWithin rest (size-record.bytes.length) else []

/-- Append a record with the call that writes it. -/
def writeRecord (out : Bytes) : WalRecord BytePage → Except DbError Bytes
  | .frame frame => writeFrame out frame.txnId frame.pageId frame.page.val
  | .commit txnId frameCount => .ok (writeCommit out txnId frameCount)

/-- The log after some calls. -/
def writeLog (records : List (WalRecord BytePage)) : Except DbError Bytes :=
  records.foldlM writeRecord []

/-! ## One record more -/

/-- A frame waits for its commit. -/
theorem openFrames_frame (txnId : ℕ) (before : List (WalRecord P)) (frame : WalFrame P) :
    openFrames txnId (before++[.frame frame])=
      if frame.txnId=txnId then openFrames txnId before++[frame] else openFrames txnId before := by
  unfold openFrames
  rw [List.reverse_append,List.reverse_singleton,List.singleton_append,
    List.takeWhile_cons_of_pos rfl,List.reverse_cons,List.filterMap_append]
  by_cases h : frame.txnId=txnId
  · rw [if_pos h]
    simp [WalRecord.frameOf,h]
  · rw [if_neg h]
    simp [WalRecord.frameOf,h]

/-- A commit takes the frames of its transaction. -/
theorem openFrames_commit (txnId other frameCount : ℕ) (before : List (WalRecord P)) :
    openFrames txnId (before++[.commit other frameCount])=
      if other=txnId then [] else openFrames txnId before := by
  unfold openFrames
  rw [List.reverse_append,List.reverse_singleton,List.singleton_append]
  by_cases h : other=txnId
  · rw [if_pos h,List.takeWhile_cons_of_neg (by simp [WalRecord.commits,h])]
    rfl
  · rw [if_neg h,List.takeWhile_cons_of_pos (by simp [WalRecord.commits,h]),List.reverse_cons,
      List.filterMap_append]
    simp [WalRecord.frameOf]

/-- The frames that wait for a commit mark are those since the mark before. -/
def Waiting (pending : Pending P) (before : List (WalRecord P)) : Prop :=
  ∀ txnId, (pending[txnId]?).getD []=openFrames txnId before

/-- One more frame waits. -/
theorem Waiting.frame {pending : Pending P} (h : Waiting pending before) (frame : WalFrame P) :
    Waiting (pending.push frame) (before++[.frame frame]) := by
  intro txnId
  rw [openFrames_frame,Pending.push,Std.ExtTreeMap.getElem?_insert]
  by_cases htxn : frame.txnId=txnId
  · subst htxn
    rw [if_pos (compare_eq_iff_eq.mpr rfl),if_pos rfl,h]
    rfl
  · rw [if_neg (fun heq => htxn (compare_eq_iff_eq.mp heq)),if_neg htxn,h]

/-- Those of one transaction wait no longer. -/
theorem Waiting.commit {pending : Pending P} (h : Waiting pending before) (txnId frameCount : ℕ) :
    Waiting (pending.erase txnId) (before++[.commit txnId frameCount]) := by
  intro other
  rw [openFrames_commit,Std.ExtTreeMap.getElem?_erase]
  by_cases htxn : txnId=other
  · rw [if_pos (compare_eq_iff_eq.mpr htxn),if_pos htxn]
    rfl
  · rw [if_neg (fun heq => htxn (compare_eq_iff_eq.mp heq)),if_neg htxn,h]

/-- A mark with the right number releases the frames that wait. -/
theorem Waiting.settle {pending : Pending P} (h : Waiting pending before) {txnId frameCount : ℕ}
    (hcount : frameCount=(openFrames txnId before).length) :
    pending.settle txnId frameCount=openFrames txnId before := by
  have hframes := h txnId
  unfold Pending.settle
  cases hlookup : pending[txnId]? with
  | none =>
    rw [hlookup] at hframes
    exact hframes
  | some frames =>
    rw [hlookup] at hframes
    have hframes : frames=openFrames txnId before := hframes
    rw [hframes]
    exact if_pos hcount.symm

/-! ## Whole logs -/

/-- What is collected from records with right numbers, from any point of the log on. -/
theorem replayFrom_counted {pending : Pending P} (committed : List (WalFrame P))
    (h : Waiting pending before) (hcounted : Counted (before++records)) :
    replayFrom records pending committed=committed++committedFrom before records := by
  induction records generalizing before pending committed with
  | nil => exact (List.append_nil committed).symm
  | cons record records ih =>
    have hsplit : before++record :: records=before++[record]++records := by simp
    cases record with
    | frame frame => exact ih committed (h.frame frame) (hsplit▸hcounted)
    | commit txnId frameCount =>
      have hcount := hcounted before txnId frameCount records rfl
      rw [replayFrom,h.settle hcount,ih _ (h.commit txnId frameCount) (hsplit▸hcounted),
        List.append_assoc]
      rfl

/-- A part of the log counts right, too. -/
theorem Counted.take (h : Counted records) (count : ℕ) : Counted (records.take count) := by
  intro before txnId frameCount after hsplit
  refine h before txnId frameCount (after++records.drop count) ?_
  have hwhole := List.take_append_drop count records
  rw [hsplit,List.append_assoc] at hwhole
  exact hwhole.symm

/-- Where the counts are right the committed frames are replayed. -/
theorem replay_counted (h : Counted records) : replay records=committedFrames records := by
  have hnone : Waiting (∅ : Pending P) [] := by
    intro txnId
    rw [Std.ExtTreeMap.getElem?_empty]
    rfl
  have hreplay : replayFrom records ∅ []=[]++committedFrom [] records :=
    replayFrom_counted [] hnone h
  rwa [List.nil_append] at hreplay

/-- Records are written as the bytes of the log. -/
theorem writeLog_eq (records : List (WalRecord BytePage)) :
    writeLog records=.ok (logBytes records) := by
  have hfold : ∀ (records : List (WalRecord BytePage)) (out : Bytes),
      records.foldlM writeRecord out=Except.ok (out++logBytes records) := by
    intro records
    induction records with
    | nil => exact fun out => congrArg Except.ok (List.append_nil out).symm
    | cons record records ih =>
      intro out
      have hrecord : writeRecord out record=.ok (out++record.bytes) := by
        cases record with
        | frame frame => exact writeFrame_eq out frame.txnId frame.pageId frame.page
        | commit txnId frameCount => rfl
      rw [List.foldlM_cons,hrecord]
      refine (ih (out++record.bytes)).trans (congrArg Except.ok ?_)
      rw [List.append_assoc]
      rfl
  exact hfold records []

/-- The records inside a cut log are those in front of the torn one. -/
theorem wholeWithin_cut {records : List (WalRecord BytePage)} {torn : WalRecord BytePage}
    {tail : Bytes} {count : ℕ} (htorn : records[count]?=some torn) (hfore : tail<+:torn.bytes)
    (hne : tail≠torn.bytes) :
    wholeWithin records (logBytes (records.take count)++tail).length=records.take count := by
  have hshort : tail.length < torn.bytes.length :=
    lt_of_le_of_ne hfore.length_le fun heq => hne (hfore.eq_of_length heq)
  induction records generalizing count with
  | nil => cases htorn
  | cons record records ih =>
    cases count with
    | zero =>
      obtain rfl := Option.some.inj htorn
      exact if_neg (Nat.not_le_of_lt hshort)
    | succ count =>
      have hsize : (logBytes ((record :: records).take (count+1))++tail).length=
          record.bytes.length+(logBytes (records.take count)++tail).length := by
        rw [List.take_succ_cons,List.length_append,List.length_append]
        unfold logBytes
        rw [List.flatMap_cons,List.length_append]
        omega
      rw [hsize,wholeWithin,if_pos (Nat.le_add_right _ _),Nat.add_sub_cancel_left,ih htorn,
        List.take_succ_cons]

/-- All records are whole in the whole log. -/
theorem wholeWithin_log (records : List (WalRecord BytePage)) :
    wholeWithin records (logBytes records).length=records := by
  induction records with
  | nil => rfl
  | cons record records ih =>
    have hsize : (logBytes (record :: records)).length=
        record.bytes.length+(logBytes records).length := by
      unfold logBytes
      rw [List.flatMap_cons,List.length_append]
    rw [hsize,wholeWithin,if_pos (Nat.le_add_right _ _),Nat.add_sub_cancel_left,ih]

/-- A log of any interleaving of transactions, cut anywhere, is recovered to the frames of the
transactions whose commit marks are whole, in commit order and as they were written. -/
theorem recoverFrames_committed (records : List (WalRecord BytePage)) (log bytes : Bytes)
    (hrange : ∀ record∈records, record.InRange) (hcounted : Counted records)
    (hlog : writeLog records=.ok log) (hfore : bytes<+:log) :
    recoverFrames bytes=.ok (committedFrames (wholeWithin records bytes.length)) := by
  rw [writeLog_eq] at hlog
  obtain rfl := Except.ok.inj hlog
  by_cases hwhole : bytes=logBytes records
  · rw [hwhole,recoverFrames_log hrange,replay_counted hcounted,wholeWithin_log]
  · obtain ⟨count,tail,torn,htorn,rfl,htail,hne⟩ := logBytes_cut hfore hwhole
    have hfuel : (logBytes (records.take count)).length ≤
        (logBytes (records.take count)++tail).length := by
      rw [List.length_append]
      exact Nat.le_add_right _ _
    have hrecover := recoverFrom_records
      (fun record hmem => hrange record (List.mem_of_mem_take hmem))
      (hrange torn (List.mem_of_getElem? htorn)) htail hne hfuel ∅ []
    rw [recoverFrames,hrecover,wholeWithin_cut htorn htail hne]
    exact congrArg Except.ok (replay_counted (hcounted.take count))

/-- A page of zeros. -/
def zeroPage : BytePage := PageImage.hole

/-- Two transactions that write and commit side by side. -/
def twoWriters : List (WalRecord BytePage) :=
  [.frame ⟨7,2,zeroPage⟩,.frame ⟨8,3,zeroPage⟩,.commit 7 1,.commit 8 1]

/-- Two writers, counted right. -/
theorem twoWriters_counted : Counted twoWriters := by
  intro before txnId frameCount after h
  unfold twoWriters at h
  rcases before with _ | ⟨first,_ | ⟨second,_ | ⟨third,_ | ⟨fourth,rest⟩⟩⟩⟩ <;>
    simp only [List.nil_append,List.cons_append,List.cons.injEq,reduceCtorEq,false_and,and_false,
      WalRecord.commit.injEq] at h
  · obtain ⟨rfl,rfl,⟨rfl,rfl⟩,-⟩ := h
    rfl
  · obtain ⟨rfl,rfl,rfl,⟨rfl,rfl⟩,-⟩ := h
    rfl
  · obtain ⟨-,-,-,-,h⟩ := h
    simp at h

/-- Without the last byte of the second mark only the first transaction's frame is recovered. -/
theorem recoverFrames_committed_twoWriters :
    recoverFrames (logBytes (twoWriters.take 3)++(WalRecord.commit 8 1).bytes.take 12)=
      .ok [⟨7,2,zeroPage⟩] := by
  have hrange : ∀ record∈twoWriters, record.InRange := by
    intro record hmem
    unfold twoWriters at hmem
    simp only [List.mem_cons,List.not_mem_nil,or_false] at hmem
    rcases hmem with rfl | rfl | rfl | rfl <;> simp [WalRecord.InRange]
  have hfore : logBytes (twoWriters.take 3)++(WalRecord.commit 8 1).bytes.take 12<+:
      logBytes twoWriters := by
    have hlog : logBytes twoWriters=
        logBytes (twoWriters.take 3)++(WalRecord.commit 8 1).bytes := by
      simp [twoWriters,logBytes]
    rw [hlog]
    exact (List.prefix_append_right_inj _).mpr (List.take_prefix _ _)
  have hrecovered := recoverFrames_committed twoWriters (logBytes twoWriters) _ hrange
    twoWriters_counted (writeLog_eq twoWriters) hfore
  rw [wholeWithin_cut (rfl : twoWriters[3]?=some (.commit 8 1)) (List.take_prefix _ _)
    (by decide)] at hrecovered
  exact hrecovered

end RustSql.V2
