import RmwUnixSocket.Names.Format

/-!
# The sweeps of orphaned segments and socket files

A process that starts unlinks what dead processes left behind.  Both sweeps find the pid in a
file name with `strtol` and ask `stat` for `/proc/<pid>`.  A sweep is a function from the
directory listing to the names that it unlinks; a directory that does not open is an empty
listing.

The names are written by other functions, in `Names.Format`, and the theorem here is that the
two sides agree: a name of any of the formats is unlinked exactly if it is of the swept domain
and its process is gone.
-/

namespace RmwUnixSocket.Names

open Numeral

/-- What `stat` says of `/proc/<pid>`. -/
inductive ProcStat
  | found
  | enoent
  | failed
deriving DecidableEq

/-- The test that the sweeps share.  The pid stands at offset `start` and ends at an
underscore; a file without one is not an orphan. -/
def orphanAt (proc : Int → ProcStat) (name : List Char) (start : Nat) : Bool :=
  let (pid, consumed) := strtol (name.drop start)
  if consumed = 0 ∨ name[start + consumed]? ≠ some '_' ∨ pid ≤ 0 then false
  else proc pid = .enoent

/-! ## Segments -/

/-- Where the pid starts in a name of one of the two segment formats of the domain. -/
def segmentPidOffset (domainId : UInt64) (name : List Char) : Option Nat :=
  let dataPrefix := snprintf 64 ("ros2_uds_data_".toList ++ (decimal domainId.toNat ++ ['_']))
  let tlPrefix := snprintf 64 ("ros2_uds_tl_".toList ++ (decimal domainId.toNat ++ ['_']))
  if dataPrefix <+: name then some dataPrefix.length
  else if tlPrefix <+: name then some tlPrefix.length
  else none

/-- One turn of the loop of `shm_cleanup_orphan_segments`. -/
def orphanSegment (proc : Int → ProcStat) (domainId : UInt64) (name : List Char) : Bool :=
  match segmentPidOffset domainId name with
  | none => false
  | some start => orphanAt proc name start

/-- shm_transport.cpp `shm_cleanup_orphan_segments`: what it passes to `shm_unlink`.
`shm_name` has `NAME_MAX + 2` bytes. -/
def shmCleanupOrphanSegments (proc : Int → ProcStat) (domainId : UInt64)
    (listing : List (List Char)) : List (List Char) :=
  (listing.filter (orphanSegment proc domainId)).map fun name => snprintf 257 ('/' :: name)

/-! ## Socket files -/

/-- One turn of the loop of `cleanup_orphan_socket_files`. -/
def orphanSocketFile (proc : Int → ProcStat) (name : List Char) : Bool :=
  if name.head? = some '.' then false
  else
    match name.idxOf? '_' with
    | none => false
    | some firstUs => orphanAt proc name (firstUs + 1)

/-- transport.cpp `cleanup_orphan_socket_files`: what it passes to `unlink`.  `full_path` has
the bytes of both buffers and two more. -/
def cleanupOrphanSocketFiles (proc : Int → ProcStat) (domainId : UInt64)
    (listing : List (List Char)) : List (List Char) :=
  (listing.filter (orphanSocketFile proc)).map fun name =>
    snprintf 386 (socketDir domainId ++ '/' :: name)

/-! ## The shared test -/

/-- A printed pid between its offset and an underscore is read back. -/
theorem orphanAt_printed (proc : Int → ProcStat) (front rest : List Char) (pid : Pid) :
    orphanAt proc (front ++ (decimal pid.val ++ '_' :: rest)) front.length =
      decide (proc pid.val = .enoent) := by
  have hparse : strtol ((front ++ (decimal pid.val ++ '_' :: rest)).drop front.length) =
      ((pid.val : Int), (decimal pid.val).length) := by
    rw [List.drop_left]
    exact strtol_decimal (lt_of_lt_of_le pid.fits (by decide)) (by decide) rest
  have hpos : 0 < (decimal pid.val).length := Nat.length_toDigits_pos
  have hend : (front ++ (decimal pid.val ++ '_' :: rest))[front.length +
      (decimal pid.val).length]? = some '_' := by
    rw [List.getElem?_append_right (by omega), List.getElem?_append_right (by omega)]
    simp
  have hpid : ¬ (pid.val : Int) ≤ 0 := by
    have := pid.positive
    omega
  have hread : ¬ ((decimal pid.val).length = 0 ∨ some '_' ≠ some '_' ∨
      (pid.val : Int) ≤ 0) := by
    rintro (hzero | hne | hle)
    · omega
    · exact hne rfl
    · exact hpid hle
  simp only [orphanAt, hparse, hend]
  exact if_neg hread

/-! ## The offset of the pid -/

theorem segmentPidOffset_eq (domainId : UInt64) (name : List Char) :
    segmentPidOffset domainId name =
      if "ros2_uds_data_".toList ++ (decimal domainId.toNat ++ ['_']) <+: name then
        some ("ros2_uds_data_".toList ++ (decimal domainId.toNat ++ ['_'])).length
      else if "ros2_uds_tl_".toList ++ (decimal domainId.toNat ++ ['_']) <+: name then
        some ("ros2_uds_tl_".toList ++ (decimal domainId.toNat ++ ['_'])).length
      else none := by
  have hdomain := length_decimal_uint64 domainId
  have hdata : snprintf 64 ("ros2_uds_data_".toList ++ (decimal domainId.toNat ++ ['_'])) =
      "ros2_uds_data_".toList ++ (decimal domainId.toNat ++ ['_']) := by
    apply snprintf_of_fits
    simp
    omega
  have htl : snprintf 64 ("ros2_uds_tl_".toList ++ (decimal domainId.toNat ++ ['_'])) =
      "ros2_uds_tl_".toList ++ (decimal domainId.toNat ++ ['_']) := by
    apply snprintf_of_fits
    simp
    omega
  simp only [segmentPidOffset, hdata, htl]

/-- A domain in a name ends at its underscore, so 1 does not match 12. -/
theorem domain_prefix_iff (text : List Char) (d d' : UInt64) (rest : List Char) :
    text ++ (decimal d.toNat ++ ['_']) <+: text ++ (decimal d'.toNat ++ '_' :: rest) ↔
      d = d' := by
  rw [List.prefix_append_right_inj]
  constructor
  · rintro ⟨tail, htail⟩
    rw [List.append_assoc, List.singleton_append,
      field_inj (not_mem_decimal (by decide)) (not_mem_decimal (by decide))] at htail
    exact UInt64.toNat_inj.mp (decimal_inj.mp htail.1)
  · rintro rfl
    exact ⟨rest, by simp⟩

theorem orphanSegment_data (proc : Int → ProcStat) (domainId d : UInt64) (pid : Pid)
    (rest : List Char) :
    orphanSegment proc domainId ("ros2_uds_data_".toList ++ (decimal d.toNat ++ '_' ::
      (decimal pid.val ++ '_' :: rest))) = decide (d = domainId ∧ proc pid.val = .enoent) := by
  have hother : ¬ "ros2_uds_tl_".toList ++ (decimal domainId.toNat ++ ['_']) <+:
      "ros2_uds_data_".toList ++ (decimal d.toNat ++ '_' ::
        (decimal pid.val ++ '_' :: rest)) := by
    simp
  simp only [orphanSegment, segmentPidOffset_eq, hother, if_false, domain_prefix_iff]
  by_cases hd : domainId = d
  · subst hd
    have h := orphanAt_printed proc ("ros2_uds_data_".toList ++
      (decimal domainId.toNat ++ ['_'])) rest pid
    simpa using h
  · simp [hd, Ne.symm hd]

theorem orphanSegment_tl (proc : Int → ProcStat) (domainId d : UInt64) (pid : Pid)
    (rest : List Char) :
    orphanSegment proc domainId ("ros2_uds_tl_".toList ++ (decimal d.toNat ++ '_' ::
      (decimal pid.val ++ '_' :: rest))) = decide (d = domainId ∧ proc pid.val = .enoent) := by
  have hother : ¬ "ros2_uds_data_".toList ++ (decimal domainId.toNat ++ ['_']) <+:
      "ros2_uds_tl_".toList ++ (decimal d.toNat ++ '_' ::
        (decimal pid.val ++ '_' :: rest)) := by
    simp
  simp only [orphanSegment, segmentPidOffset_eq, hother, if_false, domain_prefix_iff]
  by_cases hd : domainId = d
  · subst hd
    have h := orphanAt_printed proc ("ros2_uds_tl_".toList ++
      (decimal domainId.toNat ++ ['_'])) rest pid
    simpa using h
  · simp [hd, Ne.symm hd]

/-- A digit follows the common prefix in the name of a registry. -/
theorem orphanSegment_registry (proc : Int → ProcStat) (domainId d : UInt64) :
    orphanSegment proc domainId ("ros2_uds_".toList ++ decimal d.toNat) = false := by
  obtain ⟨c, rest, hdigits, hc⟩ := decimal_eq_cons d.toNat
  have hd : 'd' ≠ c := by
    rintro rfl
    simp at hc
  have ht : 't' ≠ c := by
    rintro rfl
    simp at hc
  have hdata : ¬ "ros2_uds_data_".toList ++ (decimal domainId.toNat ++ ['_']) <+:
      "ros2_uds_".toList ++ decimal d.toNat := by
    simp [hdigits, hd]
  have htl : ¬ "ros2_uds_tl_".toList ++ (decimal domainId.toNat ++ ['_']) <+:
      "ros2_uds_".toList ++ decimal d.toNat := by
    simp [hdigits, ht]
  simp only [orphanSegment, segmentPidOffset_eq, hdata, htl, if_false]

/-! ## What a sweep unlinks -/

theorem snprintf_inj {size : Nat} {text s : List Char} (hs : s.length < size - 1) :
    snprintf size text = s ↔ text = s := by
  constructor
  · intro h
    have hlen : text.length < size - 1 := by
      have := congrArg List.length h
      simp only [snprintf, List.length_take] at this
      omega
    rw [← h, snprintf_of_fits (by omega)]
  · rintro rfl
    exact snprintf_of_fits (by omega)

theorem mem_shmCleanupOrphanSegments {proc : Int → ProcStat} {domainId : UInt64}
    {listing : List (List Char)} {entry : List Char} (hlen : entry.length < 255) :
    '/' :: entry ∈ shmCleanupOrphanSegments proc domainId listing ↔
      entry ∈ listing ∧ orphanSegment proc domainId entry = true := by
  simp only [shmCleanupOrphanSegments, List.mem_map, List.mem_filter]
  constructor
  · rintro ⟨name, hname, hcut⟩
    rw [snprintf_inj (by simp; omega), List.cons.injEq] at hcut
    rwa [hcut.2] at hname
  · intro h
    exact ⟨entry, h, snprintf_of_fits (by simp; omega)⟩

/-- A payload ring is unlinked exactly if it is of the domain and of a dead process. -/
theorem makeSegmentName_mem_sweep (proc : Int → ProcStat) (domainId d : UInt64)
    (listing : List (List Char)) (pid : Pid) (ownerId : UInt32) (segmentId : UInt64) :
    makeSegmentName d pid ownerId segmentId ∈
        shmCleanupOrphanSegments proc domainId listing ↔
      d = domainId ∧ proc pid.val = .enoent ∧
        (makeSegmentName d pid ownerId segmentId).tail ∈ listing := by
  have hsplit : makeSegmentName d pid ownerId segmentId =
      '/' :: ("ros2_uds_data_".toList ++ (decimal d.toNat ++ '_' :: (decimal pid.val ++ '_' ::
        (decimal ownerId.toNat ++ '_' :: decimal segmentId.toNat)))) :=
    makeSegmentName_eq d pid ownerId segmentId
  have hlen : (makeSegmentName d pid ownerId segmentId).length ≤ 95 := List.length_take_le _ _
  rw [hsplit] at hlen ⊢
  rw [mem_shmCleanupOrphanSegments (by simp only [List.length_cons] at hlen; omega),
    orphanSegment_data, decide_eq_true_eq, List.tail_cons]
  tauto

/-- A latched cache likewise. -/
theorem tlRingName_mem_sweep (proc : Int → ProcStat) (domainId d : UInt64)
    (listing : List (List Char)) (pid : Pid) (ownerCounter : UInt32) (now : UInt64) :
    tlRingName d pid ownerCounter now ∈ shmCleanupOrphanSegments proc domainId listing ↔
      d = domainId ∧ proc pid.val = .enoent ∧
        (tlRingName d pid ownerCounter now).tail ∈ listing := by
  have hsplit : tlRingName d pid ownerCounter now =
      '/' :: ("ros2_uds_tl_".toList ++ (decimal d.toNat ++ '_' :: (decimal pid.val ++ '_' ::
        (decimal ownerCounter.toNat ++ '_' :: hex (timeComponent now).toNat)))) :=
    tlRingName_eq d pid ownerCounter now
  have hlen : (tlRingName d pid ownerCounter now).length ≤ 95 := List.length_take_le _ _
  rw [hsplit] at hlen ⊢
  rw [mem_shmCleanupOrphanSegments (by simp only [List.length_cons] at hlen; omega),
    orphanSegment_tl, decide_eq_true_eq, List.tail_cons]
  tauto

/-- The registry stays, of whatever domain. -/
theorem registryName_not_mem_sweep (proc : Int → ProcStat) (domainId d : UInt64)
    (listing : List (List Char)) :
    registryName d ∉ shmCleanupOrphanSegments proc domainId listing := by
  have hsplit : registryName d = '/' :: ("ros2_uds_".toList ++ decimal d.toNat) :=
    registryName_eq d
  have hlen : (registryName d).length ≤ 63 := List.length_take_le _ _
  rw [hsplit] at hlen ⊢
  rw [mem_shmCleanupOrphanSegments (by simp only [List.length_cons] at hlen; omega),
    orphanSegment_registry]
  simp

/-! ## Socket files -/

/-- The part of a socket path after its directory. -/
def socketFileName (pfx : SocketPrefix) (pid : Pid) (counter : UInt32) (now : UInt64) :
    List Char :=
  pfx.text ++ '_' :: (decimal pid.val ++ '_' ::
    (hex (mixedId counter now).toNat ++ ".sock".toList))

theorem makeSocketPath_split (d : UInt64) (pfx : SocketPrefix) (pid : Pid)
    (counter : UInt32) (now : UInt64) :
    makeSocketPath d pfx pid counter now =
      socketDir d ++ '/' :: socketFileName pfx pid counter now := by
  rw [makeSocketPath_eq, socketDir_eq, List.append_assoc]
  rfl

theorem prefix_head (pfx : SocketPrefix) (rest : List Char) :
    (pfx.text ++ '_' :: rest).head? ≠ some '.' := by
  cases pfx <;> simp [SocketPrefix.text]

theorem prefix_idxOf (pfx : SocketPrefix) (rest : List Char) :
    (pfx.text ++ '_' :: rest).idxOf? '_' = some 3 := by
  cases pfx <;> simp [SocketPrefix.text, List.idxOf?_cons]

theorem orphanSocketFile_eq (proc : Int → ProcStat) (pfx : SocketPrefix) (pid : Pid)
    (counter : UInt32) (now : UInt64) :
    orphanSocketFile proc (socketFileName pfx pid counter now) =
      decide (proc pid.val = .enoent) := by
  have hparse := orphanAt_printed proc (pfx.text ++ ['_'])
    (hex (mixedId counter now).toNat ++ ".sock".toList) pid
  have hstart : (pfx.text ++ ['_']).length = 3 + 1 := by
    rw [List.length_append, length_prefix, List.length_singleton]
  rw [hstart, List.append_assoc, List.singleton_append] at hparse
  simp only [orphanSocketFile, socketFileName, if_neg (prefix_head _ _), prefix_idxOf]
  exact hparse

/-- A socket path is unlinked exactly if it is of the domain and of a dead process. -/
theorem makeSocketPath_mem_sweep (proc : Int → ProcStat) (domainId d : UInt64)
    (listing : List (List Char)) (pfx : SocketPrefix) (pid : Pid) (counter : UInt32)
    (now : UInt64) :
    makeSocketPath d pfx pid counter now ∈ cleanupOrphanSocketFiles proc domainId listing ↔
      d = domainId ∧ proc pid.val = .enoent ∧
        socketFileName pfx pid counter now ∈ listing := by
  have hlen : (makeSocketPath d pfx pid counter now).length ≤ 127 := List.length_take_le _ _
  simp only [cleanupOrphanSocketFiles, List.mem_map, List.mem_filter]
  constructor
  · rintro ⟨name, ⟨hname, horphan⟩, hcut⟩
    rw [snprintf_inj (by omega), makeSocketPath_split, socketDir_eq, socketDir_eq,
      List.append_assoc, List.append_assoc, List.append_cancel_left_eq,
      field_inj (not_mem_decimal (by decide)) (not_mem_decimal (by decide))] at hcut
    obtain ⟨hd, rfl⟩ := hcut
    rw [orphanSocketFile_eq, decide_eq_true_eq] at horphan
    exact ⟨UInt64.toNat_inj.mp (decimal_inj.mp hd.symm), horphan, hname⟩
  · rintro ⟨rfl, hdead, hname⟩
    refine ⟨socketFileName pfx pid counter now, ⟨hname, ?_⟩, ?_⟩
    · rw [orphanSocketFile_eq, hdead]
      rfl
    · rw [makeSocketPath_split] at hlen ⊢
      exact snprintf_of_fits (by omega)

/-! ## Both sweeps -/

/-- Of the names that the library writes, the sweeps of a domain unlink those in the listing
of that domain with a dead pid, and no other. -/
theorem cleanup_orphans (proc : Int → ProcStat) (domainId : UInt64)
    (shm sockets : List (List Char)) (d : UInt64) (pid : Pid) :
    (∀ ownerId segmentId, makeSegmentName d pid ownerId segmentId ∈
        shmCleanupOrphanSegments proc domainId shm ↔
      d = domainId ∧ proc pid.val = .enoent ∧
        (makeSegmentName d pid ownerId segmentId).tail ∈ shm) ∧
    (∀ ownerCounter now, tlRingName d pid ownerCounter now ∈
        shmCleanupOrphanSegments proc domainId shm ↔
      d = domainId ∧ proc pid.val = .enoent ∧
        (tlRingName d pid ownerCounter now).tail ∈ shm) ∧
    registryName d ∉ shmCleanupOrphanSegments proc domainId shm ∧
    ∀ pfx counter now, makeSocketPath d pfx pid counter now ∈
        cleanupOrphanSocketFiles proc domainId sockets ↔
      d = domainId ∧ proc pid.val = .enoent ∧
        socketFileName pfx pid counter now ∈ sockets :=
  ⟨makeSegmentName_mem_sweep proc domainId d shm pid,
    tlRingName_mem_sweep proc domainId d shm pid,
    registryName_not_mem_sweep proc domainId d shm,
    fun pfx counter now => makeSocketPath_mem_sweep proc domainId d sockets pfx pid counter now⟩

end RmwUnixSocket.Names
