import LMCache.RawBlock.Backend

namespace LMCache.RawBlock

open Except

inductive PyErr where
  | osError (message : String)
  | runtimeError (message : String)
  | valueError (message : String)
  | panic
deriving DecidableEq

structure Syscall where
  dst : ℕ
  src : ℕ
  len : ℕ
deriving DecidableEq

def Syscall.Aligned (align : ℕ) (c : Syscall) : Prop := align ∣ c.dst ∧ align ∣ c.src ∧ align ∣ c.len

def moved (dst : ℕ → UInt8) (d : ℕ) (src : ℕ → UInt8) (s n : ℕ) : ℕ → UInt8 :=
  fun i => if d ≤ i ∧ i < d + n then src (s + (i - d)) else dst i

structure Transferred where
  bytes : ℕ → UInt8
  calls : List Syscall
  replies : List ℕ

def transferLoop (failed : PyErr) (stops : ℕ → Option PyErr) (src : ℕ → UInt8) :
    (replies : List ℕ) → (dst : ℕ → UInt8) → (d s len : ℕ) → Except PyErr Transferred
  | [], dst, _, _, len => if len = 0 then .ok ⟨dst, [], []⟩ else .error failed
  | n :: replies, dst, d, s, len =>
      if len = 0 then .ok ⟨dst, [], n :: replies⟩
      else if len < n then .error failed
      else match stops n with
        | some e => .error e
        | none =>
            (transferLoop failed stops src replies (moved dst d src s n) (d + n) (s + n)
              (len - n)).map fun t => { t with calls := ⟨d, s, len⟩ :: t.calls }

def pwriteFromPtr (replies : List ℕ) (device : ℕ → UInt8) (offset : ℕ) (memory : ℕ → UInt8)
    (ptr len : ℕ) : Except PyErr Transferred :=
  transferLoop (.osError "pwrite failed") (fun _ => none) memory replies device offset ptr len

def preadIntoPtr (replies : List ℕ) (device : ℕ → UInt8) (offset : ℕ) (memory : ℕ → UInt8)
    (dst size : ℕ) : Except PyErr Transferred :=
  transferLoop (.osError "pread failed")
    (fun n => if n = 0 then some (.runtimeError "unexpected EOF") else none)
    device replies memory dst offset size

structure Libc where
  posixMemalign : (align len : ℕ) → Except ℤ ℕ
  aligned : ∀ {align len ptr}, posixMemalign align len = .ok ptr → align ∣ ptr
  fresh : ℕ → UInt8

def Libc.alignedBuf (libc : Libc) (len align : ℕ) : Except PyErr ℕ :=
  match libc.posixMemalign align len with
  | .error rc => .error (.runtimeError s!"posix_memalign failed rc={rc}")
  | .ok p => if p = 0 then .error (.runtimeError "posix_memalign returned null") else .ok p

structure RawBlockDevice where
  closed : Bool
  useOdirect : Bool
  alignment : ℕ

structure PyBuffer where
  buf : ℕ
  len : ℕ
  readonly : Bool

def zeros : ℕ → UInt8 := fun _ => 0

namespace RawBlockDevice

variable (dev : RawBlockDevice)

def checkOdirect (offset totalLen : ℕ) : Except PyErr Unit :=
  if dev.useOdirect then
    if dev.alignment = 0 then .error .panic
    else if offset % dev.alignment ≠ 0 then .error (.valueError "O_DIRECT requires aligned offset")
    else if totalLen % dev.alignment ≠ 0 then
      .error (.valueError "O_DIRECT requires aligned total_len")
    else .ok ()
  else .ok ()

def checkedAdd (a b : ℕ) : Except PyErr ℕ :=
  if a + b < 2 ^ 64 then .ok (a + b) else .error (.valueError "offset overflow")

variable (libc : Libc) (replies : List ℕ) (device : ℕ → UInt8)

def writePath (offset : ℕ) (memory : ℕ → UInt8) (src payloadLen totalLen : ℕ) :
    Except PyErr Transferred :=
  let align := dev.alignment
  if totalLen = payloadLen ∧ dev.useOdirect = false then
    pwriteFromPtr replies device offset memory src payloadLen
  else if dev.useOdirect ∧ align ∣ src then
    if totalLen = payloadLen then pwriteFromPtr replies device offset memory src totalLen
    else do
      let alignedPrefix := payloadLen / align * align
      let t ← (if 0 < alignedPrefix then pwriteFromPtr replies device offset memory src alignedPrefix
        else .ok ⟨device, [], replies⟩)
      let tailPayload := payloadLen - alignedPrefix
      let tailTotal := totalLen - alignedPrefix
      if 0 < tailTotal then
        let tailOffset ← checkedAdd offset alignedPrefix
        let bounce ← libc.alignedBuf tailTotal align
        let copied := moved libc.fresh bounce memory (src + alignedPrefix) tailPayload
        let padded := moved copied (bounce + tailPayload) zeros 0 (tailTotal - tailPayload)
        let t' ← pwriteFromPtr t.replies t.bytes tailOffset padded bounce tailTotal
        .ok { t' with calls := t.calls ++ t'.calls }
      else .ok t
  else do
    let bounce ← libc.alignedBuf totalLen align
    let copied := moved libc.fresh bounce memory src payloadLen
    let padded := moved copied (bounce + payloadLen) zeros 0 (totalLen - payloadLen)
    pwriteFromPtr replies device offset padded bounce totalLen

def pwriteFromBuffer (offset : ℕ) (memory : ℕ → UInt8) (view : PyBuffer)
    (payloadLen? totalLen? : Option ℕ) : Except PyErr Transferred :=
  let payloadLen := payloadLen?.getD view.len
  let totalLen := totalLen?.getD payloadLen
  if dev.closed then .error (.runtimeError "device is closed")
  else if view.buf = 0 then .error (.valueError "null buffer pointer")
  else if view.len < payloadLen then .error (.valueError "payload_len exceeds buffer length")
  else if totalLen < payloadLen then .error (.valueError "total_len must be >= payload_len")
  else do
    dev.checkOdirect offset totalLen
    dev.writePath libc replies device offset memory view.buf payloadLen totalLen

def readPath (offset : ℕ) (memory : ℕ → UInt8) (dst cap payloadLen totalLen : ℕ) :
    Except PyErr Transferred :=
  let align := dev.alignment
  if totalLen = payloadLen ∧ dev.useOdirect = false then
    preadIntoPtr replies device offset memory dst payloadLen
  else if dev.useOdirect ∧ align ∣ dst then
    if totalLen ≤ cap then preadIntoPtr replies device offset memory dst totalLen
    else do
      let alignedPrefix := payloadLen / align * align
      let t ← (if 0 < alignedPrefix then preadIntoPtr replies device offset memory dst alignedPrefix
        else .ok ⟨memory, [], replies⟩)
      let tailPayload := payloadLen - alignedPrefix
      let tailTotal := totalLen - alignedPrefix
      if 0 < tailTotal then
        let tailOffset ← checkedAdd offset alignedPrefix
        let bounce ← libc.alignedBuf tailTotal align
        let t' ← preadIntoPtr t.replies device tailOffset libc.fresh bounce tailTotal
        .ok { t' with
          bytes := moved t.bytes (dst + alignedPrefix) t'.bytes bounce tailPayload
          calls := t.calls ++ t'.calls }
      else .ok t
  else if align = 0 then .error .panic
  else do
    let bounce ← libc.alignedBuf (roundUp totalLen align) align
    let t ← preadIntoPtr replies device offset libc.fresh bounce totalLen
    .ok { t with bytes := moved memory dst t.bytes bounce payloadLen }

def preadInto (offset : ℕ) (memory : ℕ → UInt8) (view : PyBuffer) (payloadLen : ℕ)
    (totalLen? : Option ℕ) : Except PyErr Transferred :=
  let totalLen := totalLen?.getD payloadLen
  if dev.closed then .error (.runtimeError "device is closed")
  else if view.readonly then .error (.valueError "output buffer is readonly")
  else if view.len < payloadLen then
    .error (.valueError s!"output buffer too small: cap={view.len} need={payloadLen}")
  else if view.buf = 0 then .error (.valueError "null buffer pointer")
  else if totalLen < payloadLen then .error (.valueError "total_len must be >= payload_len")
  else do
    dev.checkOdirect offset totalLen
    dev.readPath libc replies device offset memory view.buf view.len payloadLen totalLen

end RawBlockDevice

inductive IORequest where
  | write (payloadLen? totalLen? : Option ℕ)
  | read (payloadLen : ℕ) (totalLen? : Option ℕ)

structure DeviceIO where
  dev : RawBlockDevice
  libc : Libc
  device : ℕ → UInt8
  offset : ℕ
  memory : ℕ → UInt8
  view : PyBuffer
  request : IORequest

def written (device : ℕ → UInt8) (offset : ℕ) (memory : ℕ → UInt8) (ptr payloadLen totalLen : ℕ) :
    ℕ → UInt8 :=
  moved (moved device offset memory ptr payloadLen) (offset + payloadLen) zeros 0
    (totalLen - payloadLen)

def Issued (on : Bool) (align : ℕ) (replies : List ℕ) (t : Transferred) : Prop :=
  ∃ used, replies = used ++ t.replies ∧
    (on → ((∀ c ∈ t.calls, c.Aligned align) ↔ ∀ n ∈ used, align ∣ n))

section Loops

variable {failed : PyErr} {stops : ℕ → Option PyErr} {src dst : ℕ → UInt8} {replies : List ℕ}
  {d s len align : ℕ} {on : Bool} {t t' : Transferred}

@[simp] theorem moved_zero (dst : ℕ → UInt8) (d : ℕ) (src : ℕ → UInt8) (s : ℕ) :
    moved dst d src s 0 = dst := by
  funext i
  rw [moved, if_neg (by omega)]

theorem moved_moved (dst : ℕ → UInt8) (d : ℕ) (src : ℕ → UInt8) (s n m : ℕ) :
    moved (moved dst d src s n) (d + n) src (s + n) m = moved dst d src s (n + m) := by
  funext i
  simp only [moved]
  split_ifs with hlater hboth hfirst hboth' hboth''
  · congr 1
    omega
  all_goals first | rfl | omega

@[simp] theorem transferLoop_zero (replies : List ℕ) (dst : ℕ → UInt8) (d s : ℕ) :
    transferLoop failed stops src replies dst d s 0 = .ok ⟨dst, [], replies⟩ := by
  cases replies <;> simp [transferLoop]

theorem transferLoop_cons {n : ℕ} (hlen : len ≠ 0)
    (h : transferLoop failed stops src (n :: replies) dst d s len = .ok t) :
    n ≤ len ∧ ∃ rest, transferLoop failed stops src replies (moved dst d src s n) (d + n) (s + n)
      (len - n) = .ok rest ∧ t = { rest with calls := ⟨d, s, len⟩ :: rest.calls } := by
  rw [transferLoop, if_neg hlen] at h
  split_ifs at h with hmore
  refine ⟨Nat.le_of_not_lt hmore, ?_⟩
  cases hstop : stops n with
  | some e => simp [hstop] at h
  | none =>
    simp only [hstop] at h
    cases hrest : transferLoop failed stops src replies (moved dst d src s n) (d + n) (s + n)
      (len - n) with
    | error e => simp [hrest, Except.map] at h
    | ok rest =>
      simp only [hrest, Except.map, Except.ok.injEq] at h
      exact ⟨rest, rfl, h.symm⟩

theorem transferLoop_bytes (h : transferLoop failed stops src replies dst d s len = .ok t) :
    t.bytes = moved dst d src s len := by
  by_cases hlen : len = 0
  · subst hlen
    rw [transferLoop_zero] at h
    rw [← ok.inj h, moved_zero]
  induction replies generalizing dst d s len t with
  | nil => simp [transferLoop, hlen] at h
  | cons n replies ih =>
    obtain ⟨hle, rest, hrest, rfl⟩ := transferLoop_cons hlen h
    change rest.bytes = _
    rw [← Nat.add_sub_of_le hle, ← moved_moved]
    by_cases hlast : len - n = 0
    · rw [hlast, transferLoop_zero] at hrest
      rw [← ok.inj hrest, hlast, moved_zero]
    · exact ih hrest hlast

theorem transferLoop_issued (on : Bool)
    (h : transferLoop failed stops src replies dst d s len = .ok t)
    (hon : on → align ∣ d ∧ align ∣ s ∧ align ∣ len) : Issued on align replies t := by
  induction replies generalizing dst d s len t on with
  | nil =>
    by_cases hlen : len = 0
    · simp only [transferLoop, if_pos hlen, ok.injEq] at h
      exact ⟨[], by simp [← h], by simp [← h]⟩
    · simp [transferLoop, hlen] at h
  | cons n replies ih =>
    by_cases hlen : len = 0
    · rw [hlen, transferLoop_zero] at h
      exact ⟨[], by simp [← ok.inj h], by simp [← ok.inj h]⟩
    obtain ⟨hle, rest, hrest, rfl⟩ := transferLoop_cons hlen h
    by_cases hn : align ∣ n
    · obtain ⟨used, rfl, hiff⟩ := ih on hrest fun ht => ⟨Nat.dvd_add (hon ht).1 hn,
        Nat.dvd_add (hon ht).2.1 hn, Nat.dvd_sub (hon ht).2.2 hn⟩
      refine ⟨n :: used, rfl, fun ht => ?_⟩
      simp only [List.forall_mem_cons]
      exact (and_iff_right (hon ht)).trans ((hiff ht).trans (and_iff_right hn).symm)
    · -- the call after an unaligned transfer starts at an unaligned place
      obtain ⟨used, rfl, -⟩ := ih false hrest (by simp)
      refine ⟨n :: used, rfl, fun ht => iff_of_false (fun hall => hn ?_) fun hall =>
        hn (hall n List.mem_cons_self)⟩
      have hlast : len - n ≠ 0 := by
        intro hzero
        exact hn ((show n = len by omega) ▸ (hon ht).2.2)
      cases hused : used ++ rest.replies with
      | nil => simp [hused, transferLoop, hlast] at hrest
      | cons m replies =>
        rw [hused] at hrest
        obtain ⟨-, later, -, rfl⟩ := transferLoop_cons hlast hrest
        have hnext := hall ⟨d + n, s + n, len - n⟩ (by simp)
        exact (Nat.dvd_add_right (hon ht).1).mp hnext.1

theorem Issued.append (h : Issued on align replies t) (h' : Issued on align t.replies t')
    (bytes : ℕ → UInt8) :
    Issued on align replies { t' with bytes := bytes, calls := t.calls ++ t'.calls } := by
  obtain ⟨used, rfl, hiff⟩ := h
  obtain ⟨used', hreplies, hiff'⟩ := h'
  refine ⟨used ++ used', by rw [hreplies, List.append_assoc], fun ht => ?_⟩
  simp only [List.forall_mem_append]
  exact and_congr (hiff ht) (hiff' ht)

end Loops

namespace RawBlockDevice

open Utils

variable {dev : RawBlockDevice} {libc : Libc} {replies : List ℕ} {device memory : ℕ → UInt8}
  {offset ptr cap payloadLen totalLen : ℕ} {t : Transferred}

theorem loop_if_pos {failed : PyErr} {stops : ℕ → Option PyErr} {src dst : ℕ → UInt8} {d s len : ℕ} :
    (if 0 < len then transferLoop failed stops src replies dst d s len
      else .ok ⟨dst, [], replies⟩) = transferLoop failed stops src replies dst d s len := by
  split_ifs with hlen
  · rfl
  · rw [Nat.eq_zero_of_not_pos hlen, transferLoop_zero]

theorem alignedBuf_dvd {len align bounce : ℕ} (h : libc.alignedBuf len align = .ok bounce) :
    align ∣ bounce := by
  unfold Libc.alignedBuf at h
  cases hp : libc.posixMemalign align len with
  | error rc => simp [hp] at h
  | ok p =>
    simp only [hp] at h
    split_ifs at h
    exact ok.inj h ▸ libc.aligned hp

theorem moved_padded (hle : payloadLen ≤ totalLen) (fresh : ℕ → UInt8) (bounce : ℕ) :
    moved device offset (moved (moved fresh bounce memory ptr payloadLen) (bounce + payloadLen) zeros 0
        (totalLen - payloadLen)) bounce totalLen =
      written device offset memory ptr payloadLen totalLen := by
  funext i
  simp only [written, moved, zeros]
  split_ifs <;> first | rfl | omega | (congr 1; omega)

theorem written_prefix {first : ℕ} (hfirst : first ≤ payloadLen) :
    written (moved device offset memory ptr first) (offset + first) memory (ptr + first)
        (payloadLen - first) (totalLen - first) =
      written device offset memory ptr payloadLen totalLen := by
  rw [written, moved_moved, Nat.add_sub_of_le hfirst, Nat.add_assoc, Nat.add_sub_of_le hfirst, written]
  congr 1
  omega

theorem writePath_spec (hle : payloadLen ≤ totalLen)
    (hon : dev.useOdirect → dev.alignment ∣ offset ∧ dev.alignment ∣ totalLen)
    (h : dev.writePath libc replies device offset memory ptr payloadLen totalLen = .ok t) :
    t.bytes = written device offset memory ptr payloadLen totalLen ∧
      Issued dev.useOdirect dev.alignment replies t := by
  simp only [writePath, pwriteFromPtr, loop_if_pos] at h
  split_ifs at h with hplain haligned hfull htotal
  · obtain ⟨rfl, hoff⟩ := hplain
    refine ⟨?_, transferLoop_issued _ h fun ht => by simp [hoff] at ht⟩
    rw [transferLoop_bytes h, written, Nat.sub_self, moved_zero]
  · subst hfull
    refine ⟨?_, transferLoop_issued _ h fun ht => ⟨(hon ht).1, haligned.2, (hon ht).2⟩⟩
    rw [transferLoop_bytes h, written, Nat.sub_self, moved_zero]
  · obtain ⟨first, hloop, htail⟩ := exists_of_bind_eq_ok h
    have hprefix := Nat.div_mul_le_self payloadLen dev.alignment
    have hdvd : dev.alignment ∣ payloadLen / dev.alignment * dev.alignment := dvd_mul_left _ _
    have hissued := transferLoop_issued dev.useOdirect hloop fun ht =>
      ⟨(hon ht).1, haligned.2, hdvd⟩
    generalize payloadLen / dev.alignment * dev.alignment = aligned at *
    obtain ⟨tailOffset, hadd, hrest⟩ := exists_of_bind_eq_ok htail
    obtain ⟨bounce, hbounce, hread⟩ := exists_of_bind_eq_ok hrest
    obtain ⟨last, hlast, hend⟩ := exists_of_bind_eq_ok hread
    unfold checkedAdd at hadd
    split_ifs at hadd
    obtain rfl := ok.inj hadd
    obtain rfl := ok.inj hend
    refine ⟨?_, hissued.append (transferLoop_issued _ hlast fun ht => ?_) _⟩
    · change last.bytes = _
      rw [transferLoop_bytes hlast, moved_padded (by omega), transferLoop_bytes hloop,
        written_prefix hprefix]
    · exact ⟨Nat.dvd_add (hon ht).1 hdvd, alignedBuf_dvd hbounce, Nat.dvd_sub (hon ht).2 hdvd⟩
  · exact absurd (Nat.div_mul_le_self payloadLen dev.alignment) (by omega)
  · obtain ⟨bounce, hbounce, hloop⟩ := exists_of_bind_eq_ok h
    refine ⟨?_, transferLoop_issued _ hloop fun ht => ⟨(hon ht).1, alignedBuf_dvd hbounce, (hon ht).2⟩⟩
    rw [transferLoop_bytes hloop, moved_padded hle]

def Overreads (dev : RawBlockDevice) (view : PyBuffer) (payloadLen totalLen : ℕ) : Prop :=
  dev.useOdirect ∧ dev.alignment ∣ view.buf ∧ payloadLen < totalLen ∧ totalLen ≤ view.len

theorem moved_longer (hle : payloadLen ≤ totalLen) :
    moved memory ptr device offset totalLen = moved memory ptr device offset payloadLen ↔
      ∀ i, payloadLen ≤ i → i < totalLen → memory (ptr + i) = device (offset + i) := by
  constructor
  · intro h i hfrom hto
    have hi := congrFun h (ptr + i)
    simp only [moved, if_pos (show ptr ≤ ptr + i ∧ ptr + i < ptr + totalLen by omega),
      if_neg (show ¬ (ptr ≤ ptr + i ∧ ptr + i < ptr + payloadLen) by omega),
      Nat.add_sub_cancel_left] at hi
    exact hi.symm
  · intro h
    funext i
    simp only [moved]
    split_ifs
    · rfl
    · have hi := h (i - ptr) (by omega) (by omega)
      rw [Nat.add_sub_cancel' (by omega)] at hi
      exact hi.symm
    · omega
    · rfl

theorem readPath_spec {view : PyBuffer} (hle : payloadLen ≤ totalLen)
    (hon : dev.useOdirect → dev.alignment ∣ offset ∧ dev.alignment ∣ totalLen)
    (h : dev.readPath libc replies device offset memory view.buf view.len payloadLen totalLen =
      .ok t) :
    (t.bytes = moved memory view.buf device offset payloadLen ↔
      (dev.Overreads view payloadLen totalLen →
        ∀ i, payloadLen ≤ i → i < totalLen → memory (view.buf + i) = device (offset + i))) ∧
      Issued dev.useOdirect dev.alignment replies t := by
  simp only [readPath, preadIntoPtr, loop_if_pos] at h
  split_ifs at h with hplain haligned hroom htotal hzero
  · obtain ⟨rfl, hoff⟩ := hplain
    refine ⟨iff_of_true (transferLoop_bytes h) fun hover => ?_,
      transferLoop_issued _ h fun ht => by simp [hoff] at ht⟩
    have hon := hover.1
    simp [hoff] at hon
  · refine ⟨?_, transferLoop_issued _ h fun ht => ⟨haligned.2, hon ht⟩⟩
    rw [transferLoop_bytes h, moved_longer hle]
    refine ⟨fun hsame _ => hsame, fun hsame i hfrom hto => ?_⟩
    exact hsame ⟨haligned.1, haligned.2, by omega, hroom⟩ i hfrom hto
  · obtain ⟨first, hloop, htail⟩ := exists_of_bind_eq_ok h
    have hprefix := Nat.div_mul_le_self payloadLen dev.alignment
    have hdvd : dev.alignment ∣ payloadLen / dev.alignment * dev.alignment := dvd_mul_left _ _
    have hissued := transferLoop_issued dev.useOdirect hloop fun ht =>
      ⟨haligned.2, (hon ht).1, hdvd⟩
    generalize payloadLen / dev.alignment * dev.alignment = aligned at *
    obtain ⟨tailOffset, hadd, hrest⟩ := exists_of_bind_eq_ok htail
    obtain ⟨bounce, hbounce, hread⟩ := exists_of_bind_eq_ok hrest
    obtain ⟨last, hlast, hend⟩ := exists_of_bind_eq_ok hread
    unfold checkedAdd at hadd
    split_ifs at hadd
    obtain rfl := ok.inj hadd
    obtain rfl := ok.inj hend
    refine ⟨iff_of_true ?_ fun hover => absurd hover.2.2.2 hroom,
      hissued.append (transferLoop_issued _ hlast fun ht => ?_) _⟩
    · change moved first.bytes _ last.bytes _ _ = _
      rw [transferLoop_bytes hlast, transferLoop_bytes hloop]
      funext i
      simp only [moved]
      split_ifs <;> first | rfl | omega | (congr 1; omega)
    · exact ⟨alignedBuf_dvd hbounce, Nat.dvd_add (hon ht).1 hdvd, Nat.dvd_sub (hon ht).2 hdvd⟩
  · obtain ⟨first, hloop, htail⟩ := exists_of_bind_eq_ok h
    obtain rfl := ok.inj htail
    have hwhole : payloadLen / dev.alignment * dev.alignment = payloadLen := by
      have := Nat.div_mul_le_self payloadLen dev.alignment
      omega
    rw [hwhole] at hloop
    have hdvd : dev.alignment ∣ payloadLen := hwhole ▸ dvd_mul_left _ _
    exact ⟨iff_of_true (transferLoop_bytes hloop) fun hover => absurd hover.2.2.2 hroom,
      transferLoop_issued _ hloop fun ht => ⟨haligned.2, (hon ht).1, hdvd⟩⟩
  · obtain ⟨bounce, hbounce, hread⟩ := exists_of_bind_eq_ok h
    obtain ⟨whole, hloop, hcopy⟩ := exists_of_bind_eq_ok hread
    obtain rfl := ok.inj hcopy
    refine ⟨iff_of_true ?_ fun hover => absurd ⟨hover.1, hover.2.1⟩ haligned,
      transferLoop_issued _ (t := whole) hloop fun ht => ⟨alignedBuf_dvd hbounce, hon ht⟩⟩
    rw [transferLoop_bytes hloop]
    funext i
    simp only [moved]
    split_ifs <;> first | rfl | omega | (congr 1; omega)

theorem checkOdirect_ok {u : Unit} (h : dev.checkOdirect offset totalLen = .ok u)
    (hon : dev.useOdirect) : dev.alignment ∣ offset ∧ dev.alignment ∣ totalLen := by
  simp only [checkOdirect, if_pos hon] at h
  split_ifs at h with hzero hoffset htotal
  exact ⟨Nat.dvd_of_mod_eq_zero (not_not.mp hoffset), Nat.dvd_of_mod_eq_zero (not_not.mp htotal)⟩

end RawBlockDevice

namespace DeviceIO

def run (io : DeviceIO) (replies : List ℕ) : Except PyErr Transferred :=
  match io.request with
  | .write payloadLen? totalLen? =>
      io.dev.pwriteFromBuffer io.libc replies io.device io.offset io.memory io.view payloadLen?
        totalLen?
  | .read payloadLen totalLen? =>
      io.dev.preadInto io.libc replies io.device io.offset io.memory io.view payloadLen totalLen?

def expected (io : DeviceIO) : ℕ → UInt8 :=
  match io.request with
  | .write payloadLen? totalLen? =>
      let payloadLen := payloadLen?.getD io.view.len
      written io.device io.offset io.memory io.view.buf payloadLen (totalLen?.getD payloadLen)
  | .read payloadLen _ => moved io.memory io.view.buf io.device io.offset payloadLen

structure Correct (io : DeviceIO) (t : Transferred) : Prop where
  bytes : t.bytes = io.expected
  aligned : io.dev.useOdirect → ∀ c ∈ t.calls, c.Aligned io.dev.alignment

def Stays (io : DeviceIO) : Prop :=
  match io.request with
  | .write _ _ => True
  | .read payloadLen totalLen? =>
      io.dev.Overreads io.view payloadLen (totalLen?.getD payloadLen) →
        ∀ i, payloadLen ≤ i → i < totalLen?.getD payloadLen →
          io.memory (io.view.buf + i) = io.device (io.offset + i)

theorem run_spec {io : DeviceIO} {replies : List ℕ} {t : Transferred} (h : io.run replies = .ok t) :
    (t.bytes = io.expected ↔ io.Stays) ∧ Issued io.dev.useOdirect io.dev.alignment replies t := by
  obtain ⟨dev, libc, device, offset, memory, view, request⟩ := io
  cases request with
  | write payloadLen? totalLen? =>
    simp only [run, RawBlockDevice.pwriteFromBuffer] at h
    split_ifs at h with hclosed hnull hfits hle
    obtain ⟨u, hcheck, hpath⟩ := Utils.exists_of_bind_eq_ok h
    obtain ⟨hbytes, hissued⟩ := RawBlockDevice.writePath_spec (Nat.le_of_not_lt hle)
      (RawBlockDevice.checkOdirect_ok hcheck) hpath
    exact ⟨iff_of_true hbytes trivial, hissued⟩
  | read payloadLen totalLen? =>
    simp only [run, RawBlockDevice.preadInto] at h
    split_ifs at h with hclosed hreadonly hfits hnull hle
    obtain ⟨u, hcheck, hpath⟩ := Utils.exists_of_bind_eq_ok h
    exact RawBlockDevice.readPath_spec (Nat.le_of_not_lt hle)
      (RawBlockDevice.checkOdirect_ok hcheck) hpath

theorem correct_iff_stays {io : DeviceIO} {replies : List ℕ} {t : Transferred}
    (h : io.run replies = .ok t) :
    ∃ used, replies = used ++ t.replies ∧
      (io.Correct t ↔ io.Stays ∧ (io.dev.useOdirect → ∀ n ∈ used, io.dev.alignment ∣ n)) := by
  obtain ⟨hbytes, used, hused, hissued⟩ := run_spec h
  refine ⟨used, hused, fun hc => ⟨hbytes.mp hc.bytes, fun hon => ?_⟩, fun hc => ⟨hbytes.mpr hc.1, fun hon => ?_⟩⟩
  · exact (hissued hon).mp (hc.aligned hon)
  · exact (hissued hon).mpr (hc.2 hon)

def tight : Libc := ⟨fun align _ => .ok align, fun h => ok.inj h ▸ dvd_rfl, zeros⟩

def fiveOfEight (cap : ℕ) : DeviceIO where
  dev := ⟨false, true, 4⟩
  libc := tight
  device := fun _ => 7
  offset := 4
  memory := zeros
  view := ⟨8, cap, false⟩
  request := .read 5 (some 8)

theorem correct_iff_stays_hybrid :
    ∃ t, (fiveOfEight 7).run [4, 4] = .ok t ∧ ∃ used, [4, 4] = used ++ t.replies ∧
      ((fiveOfEight 7).Correct t ↔
        (fiveOfEight 7).Stays ∧ ((fiveOfEight 7).dev.useOdirect → ∀ n ∈ used, 4 ∣ n)) :=
  ⟨_, rfl, correct_iff_stays rfl⟩

theorem not_correct_overread :
    (∃ t, (fiveOfEight 8).run [8] = .ok t ∧ ¬ (fiveOfEight 8).Correct t) ∧
      ∃ t, (fiveOfEight 8).run [3, 5] = .ok t ∧ ¬ ∀ c ∈ t.calls, c.Aligned 4 := by
  refine ⟨⟨_, rfl, fun hc => ?_⟩, _, rfl, fun hall => ?_⟩
  · have hbyte := congrFun hc.bytes 13
    revert hbyte
    decide
  · have hcall := (hall ⟨11, 7, 5⟩ (List.mem_cons_of_mem _ List.mem_cons_self)).1
    revert hcall
    decide

end DeviceIO

end LMCache.RawBlock
