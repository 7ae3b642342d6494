import Missive.Proofs.Checksum.Pieces
import Missive.Proofs.Cipher.RoundTrip

/-!
# Encrypting several streams as one

The plaintext may come as several streams, and each of them in pieces that end anywhere. What is
written is the ciphertext of their concatenation, which `Enciphers` describes by itself: each byte
is masked by the keystream at its position, or each block is masked with the ciphertext block before
it and then encrypted. Checksums that observe the output are those of the output, also when a stream
fails and the output ends early (`Cipher.encryptStreams_concatenation`).
-/

namespace Missive

/-! ### Ciphertexts by themselves -/

/-- A counter block is numbered modulo 2¹²⁸. -/
theorem Counter.ofBigEndian_counterBlock (start : Block) (index : Nat) :
    Bytes.ofBigEndian (counterBlock start index).toBytes =
      (Bytes.ofBigEndian start.toBytes + index) % Bytes.capacity Block.size := by
  rw [counterBlock, Block.toBytes_ofBytes, Bytes.ofBigEndian_bigEndian]

theorem Block.eq_of_ofBigEndian {block other : Block}
    (same : Bytes.ofBigEndian block.toBytes = Bytes.ofBigEndian other.toBytes) : block = other := by
  have bytes : block.toBytes = other.toBytes := by
    rw [← Bytes.bigEndian_ofBigEndian block.toBytes, same, length_toBytes, ← length_toBytes other,
      Bytes.bigEndian_ofBigEndian]
  exact Vector.toList_inj.mp bytes

theorem Block.getD_toBytes (block : Block) {place : Nat} (inside : place < Block.size) :
    block.toBytes.getD place 0 = block.get ⟨place, inside⟩ := by
  have bound : place < block.toBytes.length := by rwa [length_toBytes]
  rw [List.getD_eq_getElem?_getD, List.getElem?_eq_getElem bound, Option.getD_some]
  rfl

/-- Masking a whole text masks each byte with the byte of the keystream at its position. -/
theorem Counter.mask_eq_mapIdx (cipher : BlockCipher) (start : Block) (text : Bytes) :
    mask cipher start 0 text = text.mapIdx fun position byte =>
      byte ^^^ (cipher.encrypt (counterBlock start (position / Block.size))).toBytes.getD
        (position % Block.size) 0 := by
  apply List.ext_getElem
  · simp
  · intro position bound _
    have inside : position % Block.size < Block.size := Nat.mod_lt _ (by decide)
    rw [List.getElem_mapIdx, Block.getD_toBytes _ inside]
    simp [mask, Bytes.xor, keystream_eq_map, keystreamByte, keystreamBlock]

namespace Chaining

variable {cipher : BlockCipher}

theorem encryptBlocks_eq_zipWith (chain : Block) (blocks : List Block) :
    encryptBlocks cipher chain blocks =
      List.zipWith (fun block before => cipher.encrypt (block.xor before)) blocks
        (chain :: encryptBlocks cipher chain blocks) := by
  induction blocks generalizing chain with
  | nil => rfl
  | cons block blocks ih =>
      simp only [encryptBlocks, List.zipWith_cons_cons]
      rw [← ih]

/-- The equation between consecutive blocks leaves one ciphertext only. -/
theorem eq_encryptBlocks {chain : Block} {plain encrypted : List Block}
    (chained : encrypted = List.zipWith (fun block before => cipher.encrypt (block.xor before))
      plain (chain :: encrypted)) : encrypted = encryptBlocks cipher chain plain := by
  induction plain generalizing chain encrypted with
  | nil => exact chained
  | cons block plain ih =>
      rw [List.zipWith_cons_cons] at chained
      cases encrypted with
      | nil => cases chained
      | cons first rest =>
          rw [List.cons.injEq] at chained
          rw [encryptBlocks, ← chained.1, ← ih chained.2]

/-- A stream that fails has its whole blocks encrypted, and nothing else. -/
theorem encryptPieces_of_failure (cipher : BlockCipher) {ending : Ending} {error : StreamError}
    (failed : ending.error? = some error) (chain : Block) {pending : Bytes}
    (short : pending.length < Block.size) (pieces : List Bytes) :
    (encryptPieces cipher ending chain pending pieces).content =
        Block.join (encryptBlocks cipher chain (Block.split (pending ++ pieces.flatten))) ∧
      (encryptPieces cipher ending chain pending pieces).ending = ending := by
  induction pieces generalizing chain pending with
  | nil =>
      rw [List.flatten_nil, List.append_nil, Block.split_of_lt short, encryptBlocks]
      cases ending with
      | finished => cases failed
      | failing error => exact ⟨rfl, rfl⟩
      | rejected error => exact ⟨rfl, rfl⟩
  | cons piece pieces ih =>
      have rest := ih
        ((encryptBlocks cipher chain (Block.split (pending ++ piece))).getLastD chain)
        (Block.length_remainder_lt (pending ++ piece))
      refine ⟨?_, rest.2⟩
      simp only [encryptPieces]
      rw [ByteStream.content_consPiece, List.flatten_cons, ← List.append_assoc,
        Block.split_append (pending ++ piece), encryptBlocks_append, Block.join_append, ← rest.1]
      rfl

end Chaining

namespace Cipher

/--
The ciphertext of some bytes under each cipher. Chained blocks must be whole, and each of them is
masked with the one before it in the ciphertext.
-/
inductive Enciphers (key : Bytes) : (cipher : Cipher) → (bytes ciphertext : Bytes) → Prop
  | none (bytes : Bytes) : Enciphers key .none bytes bytes
  | counter {data : KeyData} {counters : Nat → Block} (known : KeyData.ofBytes? key = some data)
    (numbered : ∀ index, Bytes.ofBigEndian (counters index).toBytes =
      (Bytes.ofBigEndian data.start.toBytes + index) % Bytes.capacity Block.size)
    (bytes : Bytes) :
    Enciphers key .counter bytes (bytes.mapIdx fun position byte =>
      byte ^^^ (data.cipher.encrypt (counters (position / Block.size))).toBytes.getD
        (position % Block.size) 0)
  | chaining {data : KeyData} {plain encrypted : List Block}
    (known : KeyData.ofBytes? key = some data)
    (chained : encrypted = List.zipWith
      (fun block before => data.cipher.encrypt (block.xor before)) plain
      (data.start :: encrypted)) :
    Enciphers key .chaining (Block.join plain) (Block.join encrypted)

/-- The bytes that a whole text is encrypted as: chained blocks are filled up. -/
def filled : Cipher → Bytes → Bytes
  | chaining, text => Chaining.pad text
  | _, text => text

/-- The bytes that are encrypted of a text that breaks off: chained blocks must be complete. -/
def complete : Cipher → Bytes → Bytes
  | chaining, text => text.take (Block.size * (text.length / Block.size))
  | _, text => text

/-- What encrypting some bytes to an output does, under observation. -/
structure Writes (cipher : Cipher) (key bytes : Bytes) (failure : Option Error)
    (checksums : List Checksum) (outcome : Transfer × List Checksum.State) : Prop where
  output : cipher.Enciphers key bytes outcome.1.output
  written : outcome.1.written = outcome.1.output.length
  failure : outcome.1.failure = failure
  observed : outcome.2.map Checksum.State.value =
    checksums.map fun checksum => checksum.compute outcome.1.output

variable {cipher : Cipher} {key bytes : Bytes}

/-- There is one ciphertext of some bytes at most. -/
theorem Enciphers.unique {first second : Bytes} (one : cipher.Enciphers key bytes first)
    (other : cipher.Enciphers key bytes second) : first = second := by
  cases one with
  | none => cases other; rfl
  | @counter data counters known numbered =>
      cases other with
      | @counter data' counters' known' numbered' =>
          rw [known] at known'
          cases known'
          have same : counters = counters' := by
            funext index
            exact Block.eq_of_ofBigEndian ((numbered index).trans (numbered' index).symm)
          rw [same]
  | @chaining data plain encrypted known chained =>
      generalize shape : Block.join plain = bytes at other
      cases other with
      | @chaining data' plain' encrypted' known' chained' =>
          rw [known] at known'
          cases known'
          have blocks : plain = plain' := by
            rw [← Block.split_join plain, shape, Block.split_join]
          rw [Chaining.eq_encryptBlocks chained, Chaining.eq_encryptBlocks chained', blocks]

theorem enciphers_ciphertextOf (fits : key.length = cipher.keyLength) (text : Bytes) :
    cipher.Enciphers key (cipher.filled text) (cipher.ciphertextOf key text) := by
  cases cipher with
  | none => exact .none text
  | counter =>
      rcases KeyData.exists_ofBytes? fits with ⟨data, known⟩
      simp only [ciphertextOf, known, filled, Counter.mask_eq_mapIdx]
      exact .counter known (Counter.ofBigEndian_counterBlock data.start) text
  | chaining =>
      rcases KeyData.exists_ofBytes? fits with ⟨data, known⟩
      have whole : Block.join (Block.split (Chaining.pad text)) = Chaining.pad text := by
        apply Block.join_split_of_dvd
        rw [Chaining.length_pad, Nat.mul_mod_right]
      simp only [ciphertextOf, known, filled, Chaining.encrypt]
      rw [← whole, Block.split_join]
      exact .chaining known (Chaining.encryptBlocks_eq_zipWith _ _)

/-- The encrypted view of a stream that fails breaks off, and then fails itself. -/
theorem exists_encryptedView_of_failure (fits : key.length = cipher.keyLength)
    {stream : ByteStream} {error : StreamError} (failed : stream.ending.error? = some error) :
    ∃ view, cipher.encryptedView key stream = .ok view ∧ view.ending.error? = some error ∧
      cipher.Enciphers key (cipher.complete stream.content) view.content := by
  cases cipher with
  | none => exact ⟨stream, rfl, failed, .none stream.content⟩
  | counter =>
      rcases KeyData.exists_ofBytes? fits with ⟨data, known⟩
      refine ⟨Counter.view data.cipher data.start 0 stream, ?_, failed, ?_⟩
      · simp only [encryptedView, keyData, known, pure, Except.pure, bind, Except.bind]
      · rw [Counter.content_view, Counter.mask_eq_mapIdx]
        exact .counter known (Counter.ofBigEndian_counterBlock data.start) stream.content
  | chaining =>
      rcases KeyData.exists_ofBytes? fits with ⟨data, known⟩
      have view := Chaining.encryptPieces_of_failure data.cipher failed data.start
        (show ([] : Bytes).length < Block.size by decide) stream.pieces
      refine ⟨Chaining.encryptView data.cipher data.start stream, ?_, ?_, ?_⟩
      · simp only [encryptedView, keyData, known, pure, Except.pure, bind, Except.bind]
      · rw [Chaining.encryptView, view.2, failed]
      · rw [Chaining.encryptView, view.1, complete, ← Block.join_split_eq_take]
        exact .chaining known (Chaining.encryptBlocks_eq_zipWith _ _)

/-- What comes of a view that is written to an output under observation. -/
theorem writes_of_view {inputs : List ByteStream} {view : ByteStream}
    (encrypted : cipher.encryptedView key (.concat inputs) = .ok view)
    (enciphers : cipher.Enciphers key bytes view.content) (checksums : List Checksum) :
    cipher.Writes key bytes (view.ending.error?.map StreamError.toError) checksums
      (cipher.encryptStreams key inputs (checksums.map Checksum.start)) := by
  simp only [encryptStreams, encrypted, ByteStream.copy_eq]
  refine ⟨enciphers, rfl, rfl, ?_⟩
  rw [List.map_map, List.map_map]
  apply List.map_congr_left
  intro checksum _
  exact Checksum.value_observe checksum view

/--
Encrypting several streams depends on their concatenation alone, however they are cut: the output is
its ciphertext, of which there is one only, and observing checksums are those of the output. If one
of the streams fails, this holds of the bytes that have been read by then, as far as they make
whole blocks. Key data of a wrong length are refused before anything is written or observed.
-/
theorem encryptStreams_concatenation (cipher : Cipher) (key : Bytes) (checksums : List Checksum) :
    (key.length = cipher.keyLength → ∀ inputs : List ByteStream,
      (∀ input ∈ inputs, input.ending = .finished) →
        cipher.Writes key (cipher.filled (inputs.map ByteStream.content).flatten) Option.none
          checksums (cipher.encryptStreams key inputs (checksums.map Checksum.start))) ∧
    (key.length = cipher.keyLength →
      ∀ (front : List ByteStream) (failing : ByteStream) (back : List ByteStream)
        (error : StreamError), (∀ input ∈ front, input.ending = .finished) →
        failing.ending.error? = some error →
          cipher.Writes key
            (cipher.complete ((front.map ByteStream.content).flatten ++ failing.content))
            (some error.toError) checksums
            (cipher.encryptStreams key (front ++ failing :: back)
              (checksums.map Checksum.start))) ∧
    (∀ bytes first second, cipher.Enciphers key bytes first →
      cipher.Enciphers key bytes second → first = second) ∧
    (cipher ≠ none → key.length ≠ cipher.keyLength → ∀ inputs observers,
      cipher.encryptStreams key inputs observers =
        (⟨[], 0, some (.invalidRecord (.keyLength cipher.name cipher.keyLength key.length))⟩,
          observers)) := by
  refine ⟨?_, ?_, fun _ _ _ => Enciphers.unique, ?_⟩
  · intro fits inputs finished
    have plaintext := ByteStream.concat_of_finished finished
    rcases encryptedView_of_finished fits plaintext.2 with ⟨view, encrypted, content, ended⟩
    have enciphers := enciphers_ciphertextOf fits (inputs.map ByteStream.content).flatten
    rw [← plaintext.1, ← content] at enciphers
    have writes := writes_of_view encrypted enciphers checksums
    rwa [ended, plaintext.1] at writes
  · intro fits front failing back error finished failed
    have plaintext := ByteStream.concat_append finished (failing :: back)
    rw [ByteStream.concat_of_failure failed] at plaintext
    rw [← plaintext.2] at failed
    rcases exists_encryptedView_of_failure fits failed with ⟨view, encrypted, broken, enciphers⟩
    have writes := writes_of_view encrypted enciphers checksums
    rwa [broken, plaintext.1] at writes
  · intro keyed misfits inputs observers
    have unusable : KeyData.ofBytes? key = Option.none := by
      cases cipher with
      | none => exact absurd rfl keyed
      | counter => exact dif_neg misfits
      | chaining => exact dif_neg misfits
    cases cipher with
    | none => exact absurd rfl keyed
    | counter =>
        simp only [encryptStreams, encryptedView, keyData, unusable, encryptKeyFault, bind,
          Except.bind]
    | chaining =>
        simp only [encryptStreams, encryptedView, keyData, unusable, encryptKeyFault, bind,
          Except.bind]

/-- Three streams, the second of which is empty and the third fails in the middle of a block. -/
theorem encryptStreams_concatenation_broken :
    let key : Bytes := List.replicate 48 7
    let front : List ByteStream := [⟨[List.replicate 10 1], .finished⟩, ⟨[], .finished⟩]
    let failing : ByteStream := ⟨[[2], List.replicate 8 3], .failing (.input .isDirectory)⟩
    let checksums : List Checksum := [.crc32, .blake3]
    key.length = chaining.keyLength ∧ (∀ input ∈ front, input.ending = .finished) ∧
      failing.ending.error? = some (.input .isDirectory) ∧
      chaining.Writes key (List.replicate 10 1 ++ 2 :: List.replicate 5 3)
        (some (.io .isDirectory)) checksums
        (chaining.encryptStreams key (front ++ [failing]) (checksums.map Checksum.start)) ∧
      chaining.Writes key (List.replicate 10 1 ++ List.replicate 6 6) Option.none checksums
        (chaining.encryptStreams key front (checksums.map Checksum.start)) ∧
      chaining.encryptStreams [] [failing] [] =
        (⟨[], 0, some (.invalidRecord (.keyLength "AES-256-CBC" 48 0))⟩, []) := by
  intro key front failing checksums
  have fits : key.length = chaining.keyLength := by simp [key, keyLength, KeyData.length]
  have finished : ∀ input ∈ front, input.ending = .finished := by simp [front]
  rcases encryptStreams_concatenation chaining key checksums with ⟨whole, broken, _, _⟩
  rcases encryptStreams_concatenation chaining [] checksums with ⟨_, _, _, refused⟩
  have kept : chaining.complete ((front.map ByteStream.content).flatten ++ failing.content) =
      List.replicate 10 1 ++ 2 :: List.replicate 5 3 := by decide
  have padded : chaining.filled (front.map ByteStream.content).flatten =
      List.replicate 10 1 ++ List.replicate 6 6 := by decide
  refine ⟨fits, finished, rfl, ?_, ?_, ?_⟩
  · rw [← kept]
    exact broken fits front failing [] _ finished rfl
  · rw [← padded]
    exact whole fits front finished
  · exact refused (by decide) (by decide) [failing] []

end Cipher

end Missive
