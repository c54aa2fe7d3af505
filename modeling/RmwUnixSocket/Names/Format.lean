import RmwUnixSocket.Lib.Numeral

/-!
# The names of segments and sockets

The name of a payload ring, of a latched cache, of the registry and of a socket, as the
`snprintf` calls write them.  A name is a list of characters; a buffer that is too small would
cut it, and the `_eq` lemmas say that none is.

The ids in the names mix a counter of the process with the low bits of a clock reading.
-/

namespace RmwUnixSocket.Names

open Numeral

/-- What `getpid` returns: positive, and an `int`. -/
structure Pid where
  val : Nat
  positive : 0 < val
  fits : val < 2 ^ 31
deriving DecidableEq

/-- The prefixes that the callers of `make_socket_path` pass. -/
inductive SocketPrefix
  | sub
  | srv
  | cli
  | ctl
deriving DecidableEq

def SocketPrefix.text : SocketPrefix → List Char
  | .sub => "sub".toList
  | .srv => "srv".toList
  | .cli => "cli".toList
  | .ctl => "ctl".toList

/-! ## Ids -/

/-- The low 16 bits of the microseconds of the steady clock. -/
def timeComponent (now : UInt64) : UInt32 :=
  (now &&& 0xFFFF).toUInt32

/-- The id of a ring or of a socket: the counter above the time component.  The shift drops
the upper half of the counter. -/
def mixedId (counter : UInt32) (now : UInt64) : UInt32 :=
  (counter <<< 16) ||| timeComponent now

/-! ## Names -/

/-- shm_transport.cpp `make_segment_name`. -/
def makeSegmentName (domainId : UInt64) (pid : Pid) (ownerId : UInt32)
    (segmentId : UInt64) : List Char :=
  snprintf 96 ("/ros2_uds_data_".toList ++ (decimal domainId.toNat ++ '_' ::
    (decimal pid.val ++ '_' :: (decimal ownerId.toNat ++ '_' :: decimal segmentId.toNat))))

/-- The name in `tl_ring_create`. -/
def tlRingName (domainId : UInt64) (pid : Pid) (ownerCounter : UInt32) (now : UInt64) :
    List Char :=
  snprintf 96 ("/ros2_uds_tl_".toList ++ (decimal domainId.toNat ++ '_' ::
    (decimal pid.val ++ '_' :: (decimal ownerCounter.toNat ++ '_' ::
      hex (timeComponent now).toNat))))

/-- The name in `registry_open`. -/
def registryName (domainId : UInt64) : List Char :=
  snprintf 64 ("/ros2_uds_".toList ++ decimal domainId.toNat)

/-- The directory of a domain's sockets. -/
def socketDir (domainId : UInt64) : List Char :=
  snprintf 128 ("/tmp/ros2_uds/".toList ++ decimal domainId.toNat)

/-- transport.cpp `make_socket_path`. -/
def makeSocketPath (domainId : UInt64) (pfx : SocketPrefix) (pid : Pid) (counter : UInt32)
    (now : UInt64) : List Char :=
  snprintf 128 ("/tmp/ros2_uds/".toList ++ (decimal domainId.toNat ++ '/' ::
    (pfx.text ++ '_' :: (decimal pid.val ++ '_' ::
      (hex (mixedId counter now).toNat ++ ".sock".toList)))))

/-! ## No name is cut -/

theorem length_decimal_uint64 (n : UInt64) : (decimal n.toNat).length ≤ 20 :=
  length_decimal_le (by decide) (lt_of_lt_of_le n.toNat_lt (by decide))

theorem length_decimal_uint32 (n : UInt32) : (decimal n.toNat).length ≤ 10 :=
  length_decimal_le (by decide) (lt_of_lt_of_le n.toNat_lt (by decide))

theorem length_decimal_pid (pid : Pid) : (decimal pid.val).length ≤ 10 :=
  length_decimal_le (by decide) (lt_of_lt_of_le pid.fits (by decide))

theorem length_hex_uint32 (n : UInt32) : (hex n.toNat).length ≤ 8 :=
  length_hex_le (by decide) (lt_of_lt_of_le n.toNat_lt (by decide))

theorem length_prefix (pfx : SocketPrefix) : pfx.text.length = 3 := by
  cases pfx <;> rfl

theorem makeSegmentName_eq (domainId : UInt64) (pid : Pid) (ownerId : UInt32)
    (segmentId : UInt64) :
    makeSegmentName domainId pid ownerId segmentId =
      "/ros2_uds_data_".toList ++ (decimal domainId.toNat ++ '_' ::
        (decimal pid.val ++ '_' ::
          (decimal ownerId.toNat ++ '_' :: decimal segmentId.toNat))) := by
  apply snprintf_of_fits
  have hdomain := length_decimal_uint64 domainId
  have hpid := length_decimal_pid pid
  have howner := length_decimal_uint32 ownerId
  have hsegment := length_decimal_uint64 segmentId
  simp
  omega

theorem tlRingName_eq (domainId : UInt64) (pid : Pid) (ownerCounter : UInt32)
    (now : UInt64) :
    tlRingName domainId pid ownerCounter now =
      "/ros2_uds_tl_".toList ++ (decimal domainId.toNat ++ '_' ::
        (decimal pid.val ++ '_' ::
          (decimal ownerCounter.toNat ++ '_' :: hex (timeComponent now).toNat))) := by
  apply snprintf_of_fits
  have hdomain := length_decimal_uint64 domainId
  have hpid := length_decimal_pid pid
  have howner := length_decimal_uint32 ownerCounter
  have htime := length_hex_uint32 (timeComponent now)
  simp
  omega

theorem registryName_eq (domainId : UInt64) :
    registryName domainId = "/ros2_uds_".toList ++ decimal domainId.toNat := by
  apply snprintf_of_fits
  have hdomain := length_decimal_uint64 domainId
  simp
  omega

theorem socketDir_eq (domainId : UInt64) :
    socketDir domainId = "/tmp/ros2_uds/".toList ++ decimal domainId.toNat := by
  apply snprintf_of_fits
  have hdomain := length_decimal_uint64 domainId
  simp
  omega

theorem makeSocketPath_eq (domainId : UInt64) (pfx : SocketPrefix) (pid : Pid)
    (counter : UInt32) (now : UInt64) :
    makeSocketPath domainId pfx pid counter now =
      "/tmp/ros2_uds/".toList ++ (decimal domainId.toNat ++ '/' ::
        (pfx.text ++ '_' :: (decimal pid.val ++ '_' ::
          (hex (mixedId counter now).toNat ++ ".sock".toList)))) := by
  apply snprintf_of_fits
  have hdomain := length_decimal_uint64 domainId
  have hpid := length_decimal_pid pid
  have hid := length_hex_uint32 (mixedId counter now)
  have hpfx := length_prefix pfx
  simp
  omega

/-! ## Names are equal only if their fields are -/

theorem timeComponent_toNat (now : UInt64) :
    (timeComponent now).toNat = now.toNat % 2 ^ 16 := by
  have hmask : now.toNat &&& 0xFFFF = now.toNat % 2 ^ 16 :=
    Nat.and_two_pow_sub_one_eq_mod now.toNat 16
  have hsmall : now.toNat % 2 ^ 16 < 2 ^ 32 :=
    lt_of_lt_of_le (Nat.mod_lt _ (by decide)) (by decide)
  simp only [timeComponent, UInt64.toNat_toUInt32, UInt64.toNat_and]
  change (now.toNat &&& 0xFFFF) % 2 ^ 32 = now.toNat % 2 ^ 16
  rw [hmask, Nat.mod_eq_of_lt hsmall]

/-- The id keeps 16 bits of the counter and 16 bits of the clock. -/
theorem mixedId_toNat (counter : UInt32) (now : UInt64) :
    (mixedId counter now).toNat =
      2 ^ 16 * (counter.toNat % 2 ^ 16) + now.toNat % 2 ^ 16 := by
  have hshift : (counter <<< 16).toNat = 2 ^ 16 * (counter.toNat % 2 ^ 16) := by
    rw [UInt32.toNat_shiftLeft]
    change counter.toNat <<< 16 % 2 ^ 32 = _
    rw [Nat.shiftLeft_eq]
    omega
  rw [mixedId, UInt32.toNat_or, hshift, timeComponent_toNat]
  exact (Nat.two_pow_add_eq_or_of_lt (Nat.mod_lt _ (by decide)) _).symm

theorem mixedId_inj {c c' : UInt32} {n n' : UInt64} :
    mixedId c n = mixedId c' n' ↔
      c.toNat % 2 ^ 16 = c'.toNat % 2 ^ 16 ∧ n.toNat % 2 ^ 16 = n'.toNat % 2 ^ 16 := by
  rw [← UInt32.toNat_inj, mixedId_toNat, mixedId_toNat]
  omega

theorem timeComponent_inj {n n' : UInt64} :
    timeComponent n = timeComponent n' ↔ n.toNat % 2 ^ 16 = n'.toNat % 2 ^ 16 := by
  rw [← UInt32.toNat_inj, timeComponent_toNat, timeComponent_toNat]

theorem decimal_uint64_inj {m n : UInt64} : decimal m.toNat = decimal n.toNat ↔ m = n := by
  rw [decimal_inj, UInt64.toNat_inj]

theorem decimal_uint32_inj {m n : UInt32} : decimal m.toNat = decimal n.toNat ↔ m = n := by
  rw [decimal_inj, UInt32.toNat_inj]

theorem makeSegmentName_inj {d d' : UInt64} {pid : Pid} {o o' : UInt32} {s s' : UInt64} :
    makeSegmentName d pid o s = makeSegmentName d' pid o' s' ↔
      d = d' ∧ o = o' ∧ s = s' := by
  have hsep : ∀ n, '_' ∉ decimal n := fun n => not_mem_decimal (by decide)
  rw [makeSegmentName_eq, makeSegmentName_eq, List.append_cancel_left_eq,
    field_inj (hsep _) (hsep _), field_inj (hsep _) (hsep _), field_inj (hsep _) (hsep _),
    decimal_uint64_inj, decimal_uint32_inj, decimal_uint64_inj]
  simp

theorem tlRingName_inj {d d' : UInt64} {pid : Pid} {c c' : UInt32} {n n' : UInt64} :
    tlRingName d pid c n = tlRingName d' pid c' n' ↔
      d = d' ∧ c = c' ∧ n.toNat % 2 ^ 16 = n'.toNat % 2 ^ 16 := by
  have hsep : ∀ n, '_' ∉ decimal n := fun n => not_mem_decimal (by decide)
  rw [tlRingName_eq, tlRingName_eq, List.append_cancel_left_eq,
    field_inj (hsep _) (hsep _), field_inj (hsep _) (hsep _), field_inj (hsep _) (hsep _),
    decimal_uint64_inj, decimal_uint32_inj, hex_inj, UInt32.toNat_inj, timeComponent_inj]
  simp

theorem prefix_inj {pfx pfx' : SocketPrefix} : pfx.text = pfx'.text ↔ pfx = pfx' := by
  cases pfx <;> cases pfx' <;> decide

theorem makeSocketPath_inj {d d' : UInt64} {pfx pfx' : SocketPrefix} {pid : Pid}
    {c c' : UInt32} {n n' : UInt64} :
    makeSocketPath d pfx pid c n = makeSocketPath d' pfx' pid c' n' ↔
      d = d' ∧ pfx = pfx' ∧ mixedId c n = mixedId c' n' := by
  have hsep : ∀ n, '_' ∉ decimal n := fun n => not_mem_decimal (by decide)
  have hslash : ∀ n, '/' ∉ decimal n := fun n => not_mem_decimal (by decide)
  have hpfx : ∀ pfx : SocketPrefix, '_' ∉ pfx.text := by
    intro pfx
    cases pfx <;> decide
  rw [makeSocketPath_eq, makeSocketPath_eq, List.append_cancel_left_eq,
    field_inj (hslash _) (hslash _), field_inj (hpfx _) (hpfx _),
    field_inj (hsep _) (hsep _), List.append_cancel_right_eq,
    decimal_uint64_inj, prefix_inj, hex_inj, UInt32.toNat_inj]
  simp

/-! The families differ in their first characters. -/

theorem makeSegmentName_ne_tlRingName {d d' : UInt64} {pid : Pid} {o : UInt32} {s : UInt64}
    {c : UInt32} {n : UInt64} : makeSegmentName d pid o s ≠ tlRingName d' pid c n := by
  rw [makeSegmentName_eq, tlRingName_eq]
  simp

theorem makeSegmentName_ne_makeSocketPath {d d' : UInt64} {pid : Pid} {o : UInt32}
    {s : UInt64} {pfx : SocketPrefix} {c : UInt32} {n : UInt64} :
    makeSegmentName d pid o s ≠ makeSocketPath d' pfx pid c n := by
  rw [makeSegmentName_eq, makeSocketPath_eq]
  simp

theorem tlRingName_ne_makeSocketPath {d d' : UInt64} {pid : Pid} {c c' : UInt32}
    {n n' : UInt64} {pfx : SocketPrefix} :
    tlRingName d pid c n ≠ makeSocketPath d' pfx pid c' n' := by
  rw [tlRingName_eq, makeSocketPath_eq]
  simp

end RmwUnixSocket.Names
