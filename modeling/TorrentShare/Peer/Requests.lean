import TorrentShare.Peer.Received
import TorrentShare.Tracker.Writes

/-!
# Chunk requests

A request for a chunk names the file, the number of the chunk, the trackers that the asking peer
knows and the seeder. The seeder finds these by their places among the words of the request, and
asks a tracker for the path of the file.
-/

namespace TorrentShare

/-! ### Requests -/

/-- `ServerPath`, from the text of a `tracker_info` file: the words of its lines. There is no value
    if a line has a single word. -/
def serverPath (text : Str) : Option Str :=
  ((getlines text).mapM fun line => (split line ' ')[0]?.bind fun ip =>
    (split line ' ')[1]?.map fun port => ip ++ " ".toList ++ port ++ " ".toList).map fun words =>
      words.flatten.dropLast

/-- The request that `DownloadKernel` sends to a seeder. -/
def sendChunk (groupname name : Str) (chunkNum : ℕ) (serverpath seederName : Str) : Str :=
  "send_chunk ".toList ++ groupname ++ " ".toList ++ name ++ " ".toList ++ toStr chunkNum ++
    " ".toList ++ serverpath ++ " ".toList ++ seederName

/-- `Conv`: the addresses of the two trackers. -/
def conv (splitVector : List Str) : Option (List (Str × ℤ)) :=
  splitVector[4]?.bind fun ip => splitVector[5]?.bind fun port =>
    splitVector[6]?.bind fun ip' => splitVector[7]?.map fun port' =>
      [(ip, atoi port), (ip', atoi port')]

/-- What `TransferFunction` takes from the words of a request. -/
structure ChunkRequest where
  groupname : Str
  filename : Str
  chunkNum : Str
  trackerData : List (Str × ℤ)
  username : Str
  deriving DecidableEq

/-- There is no value if there are too few words. -/
def chunkRequest (splitVector : List Str) : Option ChunkRequest :=
  (conv splitVector).bind fun trackerData => splitVector[1]?.bind fun groupname =>
    splitVector[2]?.bind fun filename => splitVector[8]?.bind fun username =>
      splitVector[3]?.map fun chunkNum => ⟨groupname, filename, chunkNum, trackerData, username⟩

/-- The first nine words are looked at. -/
lemma chunkRequest_eq_some {v : List Str} (h : 9 ≤ v.length) :
    ∃ r, chunkRequest v = some r := by
  have hget : ∀ i < 9, ∃ w, v[i]? = some w := fun i hi =>
    ⟨_, List.getElem?_eq_getElem (hi.trans_le h)⟩
  obtain ⟨groupname, h₁⟩ := hget 1 (by decide)
  obtain ⟨filename, h₂⟩ := hget 2 (by decide)
  obtain ⟨chunkNum, h₃⟩ := hget 3 (by decide)
  obtain ⟨ip, h₄⟩ := hget 4 (by decide)
  obtain ⟨port, h₅⟩ := hget 5 (by decide)
  obtain ⟨ip', h₆⟩ := hget 6 (by decide)
  obtain ⟨port', h₇⟩ := hget 7 (by decide)
  obtain ⟨username, h₈⟩ := hget 8 (by decide)
  exact ⟨_, by rw [chunkRequest, conv, h₁, h₂, h₃, h₄, h₅, h₆, h₇, h₈]; rfl⟩

lemma le_length_of_chunkRequest {v : List Str} {r : ChunkRequest} (h : chunkRequest v = some r) :
    9 ≤ v.length := by
  obtain ⟨_, -, h⟩ := Option.bind_eq_some_iff.mp h
  obtain ⟨_, -, h⟩ := Option.bind_eq_some_iff.mp h
  obtain ⟨_, -, h⟩ := Option.bind_eq_some_iff.mp h
  obtain ⟨_, h₈, -⟩ := Option.bind_eq_some_iff.mp h
  exact (List.getElem?_eq_some_iff.mp h₈).1

/-! ### Numbers in decimal -/

/-- The text is the number in decimal. -/
def IsDecimal (s : Str) (n : ℤ) : Prop := ∃ ds : Str, ds ≠ [] ∧ (∀ c ∈ ds, c.isDigit = true) ∧
  (s = ds ∧ n = Nat.ofDigitChars 10 ds 0 ∨ s = '-' :: ds ∧ n = -Nat.ofDigitChars 10 ds 0)

lemma strtol_neg_digits {ds : Str} (h : ∀ c ∈ ds, c.isDigit = true) :
    strtol ('-' :: ds) = max (-2 ^ 63) (-Nat.ofDigitChars 10 ds 0 : ℤ) := by
  have hblank : isspace '-' = false := rfl
  rw [strtol, List.dropWhile_cons, hblank, if_neg Bool.false_ne_true]
  simp only [digits_eq h]
  omega

/-- An `int` in decimal is read. -/
lemma IsDecimal.atoi_eq {s : Str} {n : ℤ} (h : IsDecimal s n) (hlow : -2 ^ 31 ≤ n)
    (hhigh : n < 2 ^ 31) : atoi s = n := by
  have hlong : strtol s = n := by
    obtain ⟨ds, hne, hdigits, ⟨rfl, rfl⟩ | ⟨rfl, rfl⟩⟩ := h
    · rw [strtol_digits hne hdigits]
      omega
    · rw [strtol_neg_digits hdigits]
      omega
  rw [atoi, hlong, Int.bmod_eq_of_le_mul_two (by omega) (by omega)]

/-- A number has no blanks. -/
lemma IsDecimal.blank {s : Str} {n : ℤ} (h : IsDecimal s n) : ' ' ∉ s := by
  obtain ⟨ds, -, hdigits, ⟨rfl, -⟩ | ⟨rfl, -⟩⟩ := h
  · exact fun hc => absurd (hdigits _ hc) (by decide)
  · intro hc
    rcases List.mem_cons.mp hc with heq | hc
    · cases heq
    · exact absurd (hdigits _ hc) (by decide)

/-! ### From the request to its parts -/

section Round

variable {ip port ip' port' : Str}

lemma split_line (hip : ' ' ∉ ip) (hport : ' ' ∉ port) :
    split (ip ++ ' ' :: port) ' ' = [ip, port] := by
  have hfields : fields [ip, port] = ip ++ ' ' :: port := by simp [fields, List.intercalate]
  rw [← hfields]
  refine split_fields (List.cons_ne_nil _ _) fun f hf => ?_
  rcases List.mem_pair.mp hf with rfl | rfl
  · exact hip
  · exact hport

/-- The addresses of two trackers are put together. -/
lemma serverPath_eq {text : Str} (hip : ' ' ∉ ip) (hport : ' ' ∉ port) (hip' : ' ' ∉ ip')
    (hport' : ' ' ∉ port')
    (htext : getlines text = [ip ++ ' ' :: port, ip' ++ ' ' :: port']) :
    serverPath text = some (fields [ip, port, ip', port']) := by
  have hend : ip ++ " ".toList ++ port ++ " ".toList ++ (ip' ++ " ".toList ++ port' ++ " ".toList) =
      fields [ip, port, ip', port'] ++ [' '] := by
    simp [fields, List.intercalate]
  simp only [serverPath, htext, List.mapM_cons, List.mapM_nil, split_line hip hport,
    split_line hip' hport', List.getElem?_cons_zero, List.getElem?_cons_succ, Option.bind_some,
    Option.map_some, Option.bind_eq_bind, Option.pure_def, List.flatten_cons, List.flatten_nil,
    List.append_nil, hend, List.dropLast_concat]

lemma fields_nine (w₀ w₁ w₂ w₃ w₄ w₅ w₆ w₇ w₈ : Str) :
    fields [w₀, w₁, w₂, w₃, w₄, w₅, w₆, w₇, w₈] = w₀ ++ [' '] ++ w₁ ++ [' '] ++ w₂ ++ [' '] ++ w₃ ++
      [' '] ++ fields [w₄, w₅, w₆, w₇] ++ [' '] ++ w₈ := by
  simp [fields, List.intercalate]

lemma sendChunk_eq (groupname name : Str) (k : ℕ) (seeder : Str) :
    sendChunk groupname name k (fields [ip, port, ip', port']) seeder =
      fields ["send_chunk".toList, groupname, name, toStr k, ip, port, ip', port', seeder] := by
  rw [fields_nine]
  rfl

/-- The seeder gets from the request what the asking peer has put into it: the group, the name, the
    number of the chunk, the addresses of the trackers and the seeder. -/
theorem chunk_request_received {groupname name seeder text : Str} {k : ℕ} {n n' : ℤ}
    (hgroup : ' ' ∉ groupname) (hname : ' ' ∉ name) (hseeder : ' ' ∉ seeder) (hk : k < 2 ^ 31)
    (htext : getlines text = [ip ++ ' ' :: port, ip' ++ ' ' :: port'])
    (hip : ' ' ∉ ip) (hip' : ' ' ∉ ip') (hport : IsDecimal port n) (hport' : IsDecimal port' n')
    (hn : -2 ^ 31 ≤ n ∧ n < 2 ^ 31) (hn' : -2 ^ 31 ≤ n' ∧ n' < 2 ^ 31) :
    ∃ serverpath r, serverPath text = some serverpath ∧
      chunkRequest (split (sendChunk groupname name k serverpath seeder) ' ') = some r ∧
      r.groupname = groupname ∧ r.filename = name ∧ atoi r.chunkNum = k ∧
      r.trackerData = [(ip, n), (ip', n')] ∧ r.username = seeder := by
  have hsplit : split (sendChunk groupname name k (fields [ip, port, ip', port']) seeder) ' ' =
      ["send_chunk".toList, groupname, name, toStr k, ip, port, ip', port', seeder] := by
    rw [sendChunk_eq]
    apply split_fields (List.cons_ne_nil _ _)
    simp only [List.forall_mem_cons, List.not_mem_nil, false_implies, implies_true, and_true]
    exact ⟨by decide, hgroup, hname, not_mem_toStr rfl, hip, hport.blank, hip', hport'.blank,
      hseeder⟩
  refine ⟨_, ⟨groupname, name, toStr k, [(ip, n), (ip', n')], seeder⟩,
    serverPath_eq hip hport.blank hip' hport'.blank htext, ?_, rfl, rfl, atoi_toStr hk, rfl, rfl⟩
  rw [hsplit, ← hport.atoi_eq hn.1 hn.2, ← hport'.atoi_eq hn'.1 hn'.2]
  rfl

end Round

/-- The second chunk of a file, with the addresses of `docker/tracker_info.txt`. -/
theorem chunk_request_received_second : ∃ serverpath r,
    serverPath "172.28.0.11 10000\n172.28.0.12 10000".toList = some serverpath ∧
    chunkRequest (split (sendChunk "g".toList "f".toList 1 serverpath "s".toList) ' ') = some r ∧
    r.groupname = "g".toList ∧ r.filename = "f".toList ∧ atoi r.chunkNum = (1 : ℕ) ∧
    r.trackerData = [("172.28.0.11".toList, 10000), ("172.28.0.12".toList, 10000)] ∧
    r.username = "s".toList := by
  have hport : IsDecimal "10000".toList 10000 :=
    ⟨"10000".toList, by decide, List.all_eq_true.mp (by decide), Or.inl ⟨rfl, by decide⟩⟩
  exact chunk_request_received (by decide) (by decide) (by decide) (by decide) (by decide)
    (by decide) (by decide) hport hport (by decide) (by decide)

end TorrentShare
