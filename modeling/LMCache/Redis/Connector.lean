import LMCache.Foundations.Execution

namespace LMCache

open List Nat

namespace Resp

def byteOf (c : Char) : UInt8 := UInt8.ofNat c.toNat

def text (s : List Char) : List UInt8 := s.map byteOf

def crlf : List UInt8 := [13, 10]

def decimal (n : ℕ) : List UInt8 := text (toDigits 10 n)

end Resp

open Resp

structure RespLine where
  bytes : List UInt8
  noCr : (13 : UInt8) ∉ bytes
deriving DecidableEq

inductive RespReply where
  | bulk (value : List UInt8)
  | nil
  | simple (line : RespLine)
  | integer (one : Bool)
  | error (line : RespLine)
deriving DecidableEq

namespace RespReply

def encode : RespReply → List UInt8
  | .bulk value => text ['$'] ++ decimal value.length ++ crlf ++ value ++ crlf
  | .nil => text ['$', '-', '1'] ++ crlf
  | .simple line => text ['+'] ++ line.bytes ++ crlf
  | .integer one => text [':', if one then '1' else '0'] ++ crlf
  | .error line => text ['-'] ++ line.bytes ++ crlf

end RespReply

namespace Resp

theorem byteOf_toNat {c : Char} (h : c.toNat < 256) : (byteOf c).toNat = c.toNat := by
  rw [byteOf, UInt8.toNat_ofNat']
  exact mod_eq_of_lt h

theorem toNat_of_mem_toDigits {n : ℕ} {c : Char} (h : c ∈ toDigits 10 n) :
    48 ≤ c.toNat ∧ c.toNat ≤ 57 := by
  have hdigit := isDigit_of_mem_toDigits (by decide) (by decide) h
  simp only [Char.isDigit, Bool.and_eq_true, decide_eq_true_eq] at hdigit
  exact ⟨hdigit.1, hdigit.2⟩

theorem digit_of_mem_decimal {n : ℕ} {b : UInt8} (h : b ∈ decimal n) :
    48 ≤ b.toNat ∧ b.toNat ≤ 57 := by
  obtain ⟨c, hc, rfl⟩ := mem_map.mp h
  have hrange := toNat_of_mem_toDigits hc
  rw [byteOf_toNat (by omega)]
  exact hrange

theorem map_charOf_decimal (n : ℕ) :
    (decimal n).map (fun b => Char.ofNat b.toNat) = toDigits 10 n := by
  rw [decimal, text, map_map]
  refine (map_congr_left fun c hc => ?_).trans (map_id _)
  have hrange := toNat_of_mem_toDigits hc
  rw [Function.comp_apply, byteOf_toNat (by omega), Char.ofNat_toNat, id_eq]

theorem decimal_injective {m n : ℕ} (h : decimal m = decimal n) : m = n := by
  have hdigits : toDigits 10 m = toDigits 10 n := by
    rw [← map_charOf_decimal, h, map_charOf_decimal]
  rw [← ofDigitChars_ten_toDigits (n := m), hdigits, ofDigitChars_ten_toDigits]

theorem decimal_ne_nil (n : ℕ) : decimal n ≠ [] := by
  rw [decimal, text, ne_eq, map_eq_nil_iff]
  exact toDigits_ne_nil

theorem cr_not_mem_decimal (n : ℕ) : (13 : UInt8) ∉ decimal n := fun h =>
  absurd (digit_of_mem_decimal h).1 (by decide)

theorem line_inj {line line' rest rest' : List UInt8} (h : (13 : UInt8) ∉ line)
    (h' : (13 : UInt8) ∉ line') (heq : line ++ crlf ++ rest = line' ++ crlf ++ rest') :
    line = line' ∧ rest = rest' := by
  induction line generalizing line' with
  | nil =>
    cases line' with
    | nil => exact ⟨rfl, append_cancel_left heq⟩
    | cons b line' => exact absurd (cons.inj heq).1 fun hb => h' (hb ▸ mem_cons_self)
  | cons a line ih =>
    cases line' with
    | nil => exact absurd (cons.inj heq).1 fun ha => h (ha ▸ mem_cons_self)
    | cons b line' =>
      obtain ⟨rfl, htail⟩ := cons.inj heq
      obtain ⟨rfl, hrest⟩ := ih (fun hmem => h (mem_cons_of_mem _ hmem))
        (fun hmem => h' (mem_cons_of_mem _ hmem)) htail
      exact ⟨rfl, hrest⟩

end Resp

namespace RespReply

open Resp

variable {reply : RespReply}

theorem eq_bulk_of_encode {n : ℕ} {payload rest : List UInt8} (hlen : payload.length = n)
    (h : reply.encode = text ['$'] ++ decimal n ++ crlf ++ payload ++ crlf ++ rest) :
    reply = .bulk payload ∧ rest = [] := by
  cases reply with
  | bulk value =>
    simp only [encode, text, map_cons, map_nil, cons_append, nil_append,
      cons.injEq, true_and, append_assoc] at h
    rw [← append_assoc, ← append_assoc (decimal n)] at h
    obtain ⟨hdecimal, hrest⟩ := line_inj (cr_not_mem_decimal _) (cr_not_mem_decimal _) h
    have hsize : value.length = payload.length := by rw [decimal_injective hdecimal, hlen]
    obtain ⟨rfl, htail⟩ := append_inj hrest hsize
    exact ⟨rfl, (append_cancel_left (htail.symm.trans (append_nil crlf).symm))⟩
  | nil =>
    obtain ⟨b, bs, hb⟩ := exists_cons_of_ne_nil (decimal_ne_nil n)
    have hdigit : 48 ≤ b.toNat ∧ b.toNat ≤ 57 :=
      digit_of_mem_decimal (n := n) (by rw [hb]; exact mem_cons_self)
    rw [hb] at h
    simp only [encode, text, map_cons, map_nil, cons_append, nil_append, cons.injEq, true_and] at h
    rw [← h.1] at hdigit
    exact absurd hdigit.1 (by decide)
  | simple line | error line | integer one =>
    refine absurd (cons.inj h).1 ?_
    decide

theorem eq_ok_of_encode {rest : List UInt8}
    (h : reply.encode = text ['+', 'O', 'K'] ++ crlf ++ rest) :
    (∃ line, reply = .simple line ∧ line.bytes = text ['O', 'K']) ∧ rest = [] := by
  cases reply with
  | simple line =>
    have htail : line.bytes ++ crlf ++ [] = text ['O', 'K'] ++ crlf ++ rest := by
      rw [append_nil]
      exact (cons.inj h).2
    obtain ⟨hline, hrest⟩ := line_inj line.noCr (by decide) htail
    exact ⟨⟨line, rfl, hline⟩, hrest.symm⟩
  | bulk value | nil | error line | integer one =>
    refine absurd (cons.inj h).1 ?_
    decide

theorem eq_integer_of_encode {one : Bool} {rest : List UInt8}
    (h : reply.encode = text [':', if one then '1' else '0'] ++ crlf ++ rest) :
    reply = .integer one ∧ rest = [] := by
  cases reply with
  | integer one' =>
    obtain ⟨hdigit, hrest⟩ := cons.inj (cons.inj h).2
    have hone : one' = one := by
      revert hdigit
      cases one <;> cases one' <;> decide
    exact ⟨by rw [hone], (append_cancel_left (hrest.symm.trans (append_nil crlf).symm))⟩
  | bulk value | nil | error line | simple line =>
    refine absurd (cons.inj h).1 ?_
    decide

end RespReply

-- unread has the bytes of the replies that have come and that no call has taken, consumed how many
-- were taken before them
structure WorkerConn where
  sent : List (List UInt8)
  unread : List UInt8
  consumed : ℕ

inductive RedisCommand where
  | doSingleGet (key : List UInt8) (len chunkSize : ℕ)
  | doSingleSet (key buf : List UInt8) (chunkSize : ℕ)
  | doSingleExists (key : List UInt8)
deriving DecidableEq

inductive CallResult where
  | got (buf : List UInt8)
  | stored
  | found (one : Bool)
  | raised (error : String)
  | waiting
deriving DecidableEq

namespace WorkerConn

def getPrefix : List UInt8 :=
  text ['*', '2'] ++ crlf ++ text ['$', '3'] ++ crlf ++ text ['G', 'E', 'T'] ++ crlf

def setPrefix : List UInt8 :=
  text ['*', '3'] ++ crlf ++ text ['$', '3'] ++ crlf ++ text ['S', 'E', 'T'] ++ crlf

def existsPrefix : List UInt8 :=
  text ['*', '2'] ++ crlf ++ text ['$', '6'] ++ crlf ++ text ['E', 'X', 'I', 'S', 'T', 'S'] ++ crlf

def okResponse : List UInt8 := text ['+', 'O', 'K'] ++ crlf

def existsResponse (one : Bool) : List UInt8 := text [':', if one then '1' else '0'] ++ crlf

def makeSizeHeader (chunkNumBytes : ℕ) : List UInt8 :=
  text ['$'] ++ decimal chunkNumBytes ++ crlf

def makeKeyHeader (key : List UInt8) : List UInt8 := makeSizeHeader key.length ++ key ++ crlf

def connect : WorkerConn := ⟨[], [], 0⟩

variable (conn : WorkerConn)

def sendMultipart (parts : List (List UInt8)) (reply : RespReply) : WorkerConn :=
  { conn with sent := conn.sent ++ [parts.flatten], unread := conn.unread ++ reply.encode }

def recvExactly (len : ℕ) (next : List UInt8 → WorkerConn → CallResult × WorkerConn) :
    CallResult × WorkerConn :=
  if len ≤ conn.unread.length then
    next (conn.unread.take len)
      { conn with unread := conn.unread.drop len, consumed := conn.consumed + len }
  else
    (.waiting, { conn with unread := [], consumed := conn.consumed + conn.unread.length })

def doSingleGet (key : List UInt8) (len chunkSize : ℕ) (reply : RespReply) :
    CallResult × WorkerConn :=
  if len ≠ chunkSize then (.raised "buffer size mismatch", conn)
  else
    let sizeHeader := makeSizeHeader chunkSize
    (conn.sendMultipart [getPrefix, makeKeyHeader key] reply).recvExactly sizeHeader.length
      fun header conn =>
        if header ≠ sizeHeader then (.raised "GET: size header mismatch", conn)
        else
          conn.recvExactly len fun buf conn =>
            conn.recvExactly crlf.length fun trailer conn =>
              if trailer ≠ crlf then (.raised "GET: trailer mismatch", conn) else (.got buf, conn)

def doSingleSet (key buf : List UInt8) (chunkSize : ℕ) (reply : RespReply) :
    CallResult × WorkerConn :=
  if buf.length ≠ chunkSize then (.raised "buffer size mismatch", conn)
  else
    (conn.sendMultipart [setPrefix, makeKeyHeader key, makeSizeHeader chunkSize, buf, crlf]
      reply).recvExactly okResponse.length fun response conn =>
        if response ≠ okResponse then (.raised "SET: response was not OK", conn) else (.stored, conn)

def doSingleExists (key : List UInt8) (reply : RespReply) : CallResult × WorkerConn :=
  (conn.sendMultipart [existsPrefix, makeKeyHeader key] reply).recvExactly
    (existsResponse true).length fun response conn =>
      if response = existsResponse true then (.found true, conn)
      else if response = existsResponse false then (.found false, conn)
      else (.raised "EXISTS returned invalid response that wasn't :0\r\n or :1\r\n", conn)

def call (command : RedisCommand) (reply : RespReply) : CallResult × WorkerConn :=
  match command with
  | .doSingleGet key len chunkSize => conn.doSingleGet key len chunkSize reply
  | .doSingleSet key buf chunkSize => conn.doSingleSet key buf chunkSize reply
  | .doSingleExists key => conn.doSingleExists key reply

end WorkerConn

namespace CallResult

def Succeeds : CallResult → Prop
  | .got _ | .stored | .found _ => True
  | .raised _ | .waiting => False

def Answers (reply : RespReply) : CallResult → Prop
  | .got buf => reply = .bulk buf
  | .stored => ∃ line, reply = .simple line ∧ line.bytes = text ['O', 'K']
  | .found one => reply = .integer one
  | .raised _ | .waiting => False

end CallResult

namespace RedisCommand

open WorkerConn

inductive Takes : RedisCommand → List UInt8 → CallResult → Prop where
  | get (key payload : List UInt8) : Takes (.doSingleGet key payload.length payload.length)
      (makeSizeHeader payload.length ++ payload ++ crlf) (.got payload)
  | set (key buf : List UInt8) : Takes (.doSingleSet key buf buf.length) okResponse .stored
  | exist (key : List UInt8) (one : Bool) :
      Takes (.doSingleExists key) (existsResponse one) (.found one)

variable {command : RedisCommand} {bytes rest : List UInt8} {result : CallResult}
  {reply : RespReply}

theorem Takes.succeeds (h : command.Takes bytes result) : result.Succeeds := by
  cases h <;> trivial

theorem Takes.answers (h : command.Takes bytes result) (hreply : reply.encode = bytes ++ rest) :
    result.Answers reply ∧ rest = [] := by
  cases h with
  | get key payload =>
    apply RespReply.eq_bulk_of_encode rfl
    simpa only [makeSizeHeader] using hreply
  | set key buf => exact RespReply.eq_ok_of_encode hreply
  | exist key one => exact RespReply.eq_integer_of_encode hreply

end RedisCommand

namespace WorkerConn

variable {conn : WorkerConn} {command : RedisCommand} {reply : RespReply} {bytes rest : List UInt8}
  {result : CallResult} {next : List UInt8 → WorkerConn → CallResult × WorkerConn}

theorem recvExactly_append {len : ℕ} (hlen : bytes.length = len) (h : conn.unread = bytes ++ rest) :
    conn.recvExactly len next =
      next bytes { conn with unread := rest, consumed := conn.consumed + len } := by
  subst hlen
  rw [recvExactly, h, if_pos (by simp), take_left, drop_left]

theorem of_recvExactly_succeeds {len : ℕ} (h : (conn.recvExactly len next).1.Succeeds) :
    ∃ bytes rest, bytes.length = len ∧ conn.unread = bytes ++ rest ∧
      conn.recvExactly len next =
        next bytes { conn with unread := rest, consumed := conn.consumed + len } := by
  rcases Nat.lt_or_ge conn.unread.length len with hlt | hge
  · rw [recvExactly, if_neg (Nat.not_le.mpr hlt)] at h
    exact absurd h id
  · refine ⟨conn.unread.take len, conn.unread.drop len, length_take_of_le hge,
      (take_append_drop len _).symm, ?_⟩
    rw [recvExactly, if_pos hge]

end WorkerConn

open Resp

namespace WorkerConn

variable {conn : WorkerConn} {command : RedisCommand} {reply : RespReply} {bytes rest : List UInt8}
  {result : CallResult}

theorem call_of_takes (htakes : command.Takes bytes result)
    (hstream : conn.unread ++ reply.encode = bytes ++ rest) :
    (conn.call command reply).1 = result ∧ (conn.call command reply).2.unread = rest ∧
      (conn.call command reply).2.consumed = conn.consumed + bytes.length := by
  cases htakes with
  | get key payload =>
    simp only [append_assoc] at hstream
    rw [call, doSingleGet, if_neg (by simp)]
    dsimp only
    rw [recvExactly_append rfl hstream, if_neg (by simp), recvExactly_append rfl rfl,
      recvExactly_append rfl rfl, if_neg (by simp)]
    refine ⟨rfl, rfl, ?_⟩
    simp [sendMultipart, Nat.add_assoc]
  | set key buf =>
    rw [call, doSingleSet, if_neg (by simp), recvExactly_append rfl hstream, if_neg (by simp)]
    exact ⟨rfl, rfl, rfl⟩
  | exist key one =>
    rw [call, doSingleExists, recvExactly_append (by cases one <;> rfl) hstream]
    cases one with
    | true => exact ⟨rfl, rfl, rfl⟩
    | false =>
      rw [if_neg (by decide), if_pos rfl]
      exact ⟨rfl, rfl, rfl⟩

theorem takes_of_call (h : (conn.call command reply).1.Succeeds) :
    ∃ bytes rest, command.Takes bytes (conn.call command reply).1 ∧
      conn.unread ++ reply.encode = bytes ++ rest := by
  cases command with
  | doSingleGet key len chunkSize =>
    rw [call, doSingleGet] at h ⊢
    split_ifs at h ⊢ with hsize
    · exact absurd h id
    · dsimp only at h ⊢
      obtain ⟨header, rest, hheader, hstream, heq⟩ := of_recvExactly_succeeds h
      rw [heq] at h ⊢
      split_ifs at h ⊢ with hmismatch
      · exact absurd h id
      · obtain ⟨payload, rest', hpayload, hrest, heq'⟩ := of_recvExactly_succeeds h
        rw [heq'] at h ⊢
        obtain ⟨trailer, rest'', htrailer, hrest', heq''⟩ := of_recvExactly_succeeds h
        rw [heq''] at h ⊢
        split_ifs at h ⊢ with htail
        · exact absurd h id
        · rw [ne_eq, not_not] at hsize hmismatch htail
          subst hsize hpayload
          refine ⟨_, rest'', .get key payload, ?_⟩
          calc conn.unread ++ reply.encode
            _ = header ++ rest := hstream
            _ = header ++ (payload ++ rest') := by rw [← hrest]
            _ = header ++ (payload ++ (trailer ++ rest'')) := by rw [← hrest']
            _ = makeSizeHeader payload.length ++ payload ++ crlf ++ rest'' := by
              rw [hmismatch, htail, append_assoc, append_assoc]
  | doSingleSet key buf chunkSize =>
    rw [call, doSingleSet] at h ⊢
    split_ifs at h ⊢ with hsize
    · exact absurd h id
    · obtain ⟨response, rest, hresponse, hstream, heq⟩ := of_recvExactly_succeeds h
      rw [heq] at h ⊢
      split_ifs at h ⊢ with hmismatch
      · exact absurd h id
      · rw [ne_eq, not_not] at hsize hmismatch
        subst hsize hmismatch
        exact ⟨_, rest, .set key buf, hstream⟩
  | doSingleExists key =>
    rw [call, doSingleExists] at h ⊢
    obtain ⟨response, rest, hresponse, hstream, heq⟩ := of_recvExactly_succeeds h
    rw [heq] at h ⊢
    split_ifs at h ⊢ with hone hzero
    · subst hone
      exact ⟨_, rest, .exist key true, hstream⟩
    · subst hzero
      exact ⟨_, rest, .exist key false, hstream⟩
    · exact absurd h id

end WorkerConn

structure LoggedCall where
  command : RedisCommand
  reply : RespReply
  result : CallResult
  takenFrom : ℕ
  takenTo : ℕ
  replyFrom : ℕ
  replyTo : ℕ
deriving DecidableEq

namespace LoggedCall

def Matched (entry : LoggedCall) : Prop :=
  entry.result.Succeeds →
    entry.takenFrom = entry.replyFrom ∧ entry.takenTo = entry.replyTo ∧
      entry.result.Answers entry.reply

end LoggedCall

structure RedisWorker where
  conn : WorkerConn
  stuck : Bool
  log : List LoggedCall

namespace RedisWorker

open Execution

def start : RedisWorker := ⟨.connect, false, []⟩

variable (worker : RedisWorker)

def exec : RedisCommand × RespReply → RedisWorker
  | (command, reply) =>
      if worker.stuck then worker
      else
        let (result, conn) := worker.conn.call command reply
        let replyFrom := worker.conn.consumed + worker.conn.unread.length
        { conn := conn
          stuck := decide (result = .waiting)
          log := worker.log ++ [⟨command, reply, result, worker.conn.consumed, conn.consumed,
            replyFrom, replyFrom + reply.encode.length⟩] }

def RepliesMatched : Prop := ∀ entry ∈ worker.log, entry.Matched

def InStep : RedisCommand × RespReply → Prop
  | (command, reply) =>
      worker.stuck = true ∨ worker.conn.unread = [] ∨
        ∀ bytes result rest, command.Takes bytes result →
          worker.conn.unread ++ reply.encode ≠ bytes ++ rest

theorem repliesMatched_exec_iff (event : RedisCommand × RespReply) :
    (worker.exec event).RepliesMatched ↔ worker.RepliesMatched ∧ worker.InStep event := by
  obtain ⟨command, reply⟩ := event
  rw [exec, InStep]
  split_ifs with hstuck
  · simp [hstuck]
  · simp only [RepliesMatched, mem_append, mem_singleton, or_imp, forall_and, forall_eq,
      hstuck, Bool.false_eq_true, false_or]
    refine and_congr_right fun _ => ?_
    rw [LoggedCall.Matched]
    dsimp only
    constructor
    · intro hmatched
      refine or_iff_not_imp_left.mpr fun hunread bytes result rest htakes hstream => ?_
      obtain ⟨hresult, _, _⟩ := WorkerConn.call_of_takes htakes hstream
      have hplace := (hmatched (hresult ▸ htakes.succeeds)).1
      exact hunread (length_eq_zero_iff.mp (by omega))
    · intro hstep hsucceeds
      obtain ⟨bytes, rest, htakes, hstream⟩ := WorkerConn.takes_of_call hsucceeds
      obtain ⟨_, _, hconsumed⟩ := WorkerConn.call_of_takes htakes hstream
      rcases hstep with hempty | hno
      · rw [hempty, nil_append] at hstream
        obtain ⟨hanswers, rfl⟩ := htakes.answers hstream
        rw [append_nil] at hstream
        rw [hempty, hconsumed, hstream]
        exact ⟨rfl, rfl, hanswers⟩
      · exact absurd hstream (hno bytes _ rest htakes)

theorem repliesMatched_iff_inStep (events : List (RedisCommand × RespReply)) :
    (final exec start events).RepliesMatched ↔ Along exec InStep start events := by
  have h : (final exec start events).RepliesMatched ↔
      start.RepliesMatched ∧ Along exec InStep start events :=
    final_iff_along (I := fun _ : RedisWorker => True) (fun _ _ _ => trivial)
      (fun worker event _ => repliesMatched_exec_iff worker event) trivial
  exact h.trans (and_iff_right fun _ hmem => absurd hmem not_mem_nil)

def shiftedExists : List (RedisCommand × RespReply) :=
  [(.doSingleExists [97], .error ⟨text ['E', 'R', 'R', ' ', 'x'], by decide⟩),
    (.doSingleExists [98], .integer true), (.doSingleExists [99], .integer false)]

theorem not_repliesMatched_shiftedExists : ¬ (final exec start shiftedExists).RepliesMatched := by
  intro h
  have hlast := h ⟨.doSingleExists [99], .integer false, .found true, 8, 12, 12, 16⟩ (by decide)
  exact absurd (hlast trivial).1 (by decide)

end RedisWorker

end LMCache
