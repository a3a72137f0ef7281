import TinyhackSsh.Spec.KeyFiles

/-! Which entries of `~/.ssh` the operations on a key touch, and when a failed import leaves
them as they were. Every operation on a key touches the two files named after it. A name
may end in `.pub`, so that these can be another key's. -/

namespace Tinyhack.KeyFiles

open Launch (trimOrEmpty)

section Directory

variable {dir : Dir} {name e : JString} {content : Bytes} {w : Write}

theorem pubName_ne (name : JString) : pubName name ≠ name := by
  intro h
  have hlength := congrArg List.length h
  simp [pubName] at hlength

theorem pubName_inj {m n : JString} (h : pubName m = pubName n) : m = n := List.append_cancel_right h

/-- Writing the file leaves the entry: it is a directory, or it already holds what is left in it. -/
def Untouched (dir : Dir) (name : JString) (content : Bytes) (w : Write) : Prop :=
  dir name = some .directory ∨ ∀ bytes ∈ w.leaves content, dir name = some (.file bytes)

theorem write_other (h : e ≠ name) : (write dir name content w).1 e = dir e := by
  unfold write
  split_ifs
  · rfl
  · cases w.leaves content with
    | none => rfl
    | some bytes => exact Function.update_of_ne h _ _

theorem write_self : (write dir name content w).1 name = dir name ↔ Untouched dir name content w := by
  unfold write Untouched
  split_ifs with hdirectory
  · exact iff_of_true rfl (.inl hdirectory)
  · cases w.leaves content with
    | none => exact iff_of_true rfl (.inr nofun)
    | some bytes =>
      simp only [Function.update_self, Option.mem_def, Option.some.injEq, forall_eq', hdirectory, false_or]
      exact eq_comm

theorem write_done : (write dir name content w).2 = true ↔ dir name ≠ some .directory ∧ w = .done := by
  unfold write
  split_ifs with hdirectory
  · exact iff_of_false nofun fun h => h.1 hdirectory
  · cases w with
    | done => exact iff_of_true rfl ⟨hdirectory, rfl⟩
    | refused => exact iff_of_false nofun nofun
    | failed written => exact iff_of_false (by simp [Write.leaves]) nofun

theorem delete_other {deletes : Bool} (h : e ≠ name) : delete dir name deletes e = dir e := by
  unfold delete
  split_ifs
  · exact Function.update_of_ne h _ _
  · rfl

end Directory

/-- What `importKey` writes to the public key file, once the private key is accepted. -/
def publicText (publicKeyContent : Option JString) : Keygen → Option JString
  | .throws => none
  | .exits status lines =>
    if status ≠ 0 ∨ (derivedText lines).isEmpty then none
    else if (trimOrEmpty publicKeyContent).isEmpty then some (derivedText lines)
    else if matchesDerived (trimOrEmpty publicKeyContent) (derivedText lines) = some true then
      some (trimOrEmpty publicKeyContent)
    else none

section Frame

variable {dir : Dir} {name e : JString} {privateKeyContent publicKeyContent : Option JString} {io : ImportIo}

/-- An import that gets as far as writing the private key. -/
theorem importKey_eq (hname : isSafeKeyName name = true) (hpriv : (trimOrEmpty privateKeyContent).isEmpty = false) :
    importKey dir name privateKeyContent publicKeyContent io =
      if (write dir name (keyLine (trimOrEmpty privateKeyContent)) io.writePriv).2 then
        (publicText publicKeyContent io.keygen).elim
          (removePriv (write dir name (keyLine (trimOrEmpty privateKeyContent)) io.writePriv).1 name io)
          (writePub (write dir name (keyLine (trimOrEmpty privateKeyContent)) io.writePriv).1 name io)
      else removePriv (write dir name (keyLine (trimOrEmpty privateKeyContent)) io.writePriv).1 name io := by
  unfold importKey
  rw [hname, hpriv]
  cases hwritten : (write dir name (keyLine (trimOrEmpty privateKeyContent)) io.writePriv).2 with
  | false => simp [hwritten]
  | true =>
    simp only [hwritten, Bool.not_true, Bool.false_eq_true, if_false, if_true]
    cases io.keygen with
    | throws => rfl
    | exits status lines =>
      simp only [publicText]
      split_ifs <;> rfl

theorem writePub_other {text : JString} (h : e ≠ name) (hpub : e ≠ pubName name) :
    (writePub dir name io text).1 e = dir e := by
  unfold writePub
  dsimp only
  split_ifs
  · exact write_other hpub
  · exact (delete_other h).trans (write_other hpub)

/-- `importKey` touches the two files of the key. -/
theorem importKey_other (h : e ≠ name) (hpub : e ≠ pubName name) :
    (importKey dir name privateKeyContent publicKeyContent io).1 e = dir e := by
  cases hname : isSafeKeyName name with
  | false => simp [importKey, hname]
  | true =>
    cases hpriv : (trimOrEmpty privateKeyContent).isEmpty with
    | true => simp [importKey, hname, hpriv]
    | false =>
      rw [importKey_eq hname hpriv]
      have hwrite : ∀ content, (write dir name content io.writePriv).1 e = dir e := fun _ => write_other h
      split_ifs
      · cases publicText publicKeyContent io.keygen with
        | none => exact (delete_other h).trans (hwrite _)
        | some text => exact (writePub_other h hpub).trans (hwrite _)
      · exact (delete_other h).trans (hwrite _)

theorem deleteIfExists_other {deletes ok : Bool} (h : e ≠ name) : (deleteIfExists dir name deletes ok).1 e = dir e := by
  unfold deleteIfExists
  split_ifs
  · rfl
  · exact delete_other h

theorem deleteKey_other {io : DeleteIo} (h : e ≠ name) (hpub : e ≠ pubName name) :
    (deleteKey dir name io).1 e = dir e := by
  unfold deleteKey
  dsimp only
  split_ifs
  · rfl
  · exact (deleteIfExists_other hpub).trans (deleteIfExists_other h)

theorem generateSecurityKeyPair_other {comment : Option JString} {io : GenerateIo} (h : e ≠ name)
    (hpub : e ≠ pubName name) : (generateSecurityKeyPair dir name comment io).1 e = dir e := by
  have hremove : ∀ dir, (removeBoth dir name io).1 e = dir e := fun _ => (delete_other hpub).trans (delete_other h)
  unfold generateSecurityKeyPair
  split_ifs
  · rfl
  · rfl
  · cases io.point with
    | none => exact hremove dir
    | some point =>
      dsimp only
      split_ifs
      · exact (hremove _).trans (write_other h)
      · exact (hremove _).trans ((write_other hpub).trans (write_other h))
      · exact (write_other hpub).trans (write_other h)

end Frame

/-- What is done with a key, and what happens outside meanwhile. -/
inductive Operation
  | importKey (privateKeyContent publicKeyContent : Option JString) (io : ImportIo)
  | deleteKey (io : DeleteIo)
  | generateSecurityKeyPair (comment : Option JString) (io : GenerateIo)

def Operation.run (dir : Dir) (name : JString) : Operation → Dir × Bool
  | .importKey privateKeyContent publicKeyContent io =>
    KeyFiles.importKey dir name privateKeyContent publicKeyContent io
  | .deleteKey io => KeyFiles.deleteKey dir name io
  | .generateSecurityKeyPair comment io => KeyFiles.generateSecurityKeyPair dir name comment io

theorem Operation.run_other (op : Operation) {dir : Dir} {name e : JString} (h : e ≠ name) (hpub : e ≠ pubName name) :
    (op.run dir name).1 e = dir e := by
  cases op with
  | importKey => exact importKey_other h hpub
  | deleteKey => exact deleteKey_other h hpub
  | generateSecurityKeyPair => exact generateSecurityKeyPair_other h hpub

/-- Deleting a key that has both files. -/
theorem deleteKey_deletes {dir : Dir} {name : JString} (hname : isSafeKeyName name = true) (hdir : ∀ e, dir e ≠ none) :
    (deleteKey dir name ⟨true, true, true⟩).1 name = none ∧
    (deleteKey dir name ⟨true, true, true⟩).1 (pubName name) = none := by
  have hne := pubName_ne name
  unfold deleteKey
  rw [hname]
  simp only [Bool.not_true, Bool.false_eq_true, if_false, deleteIfExists, if_neg (hdir name), delete, if_true]
  rw [Function.update_of_ne hne, if_neg (hdir _)]
  exact ⟨(Function.update_of_ne hne.symm _ _).trans (Function.update_self ..), Function.update_self ..⟩

/-- The file can be opened and written to its end. -/
def Writable (dir : Dir) (name : JString) (w : Write) : Prop := dir name ≠ some .directory ∧ w = .done

/-- The key is refused at once, or imported; or the private key file did not exist and is
removed again, or could not be removed and was not changed; and the same public key file is
there as before. -/
def FailsCleanly (dir : Dir) (name : JString) (privateKeyContent publicKeyContent : Option JString) (io : ImportIo) :
    Prop :=
  isSafeKeyName name = false ∨ (trimOrEmpty privateKeyContent).isEmpty = true ∨
  (Writable dir name io.writePriv ∧ (publicText publicKeyContent io.keygen).isSome = true ∧
    Writable dir (pubName name) io.writePub) ∨
  ((io.deletes = true ∧ dir name = none ∨
      io.deletes = false ∧ Untouched dir name (keyLine (trimOrEmpty privateKeyContent)) io.writePriv) ∧
    (Writable dir name io.writePriv → ∀ text ∈ publicText publicKeyContent io.keygen,
      Untouched dir (pubName name) (keyLine text) io.writePub))

section Import

variable {dir dir' : Dir} {name : JString} {privateKeyContent publicKeyContent : Option JString} {io : ImportIo}

/-- The end of a failed import, when only the two files can differ. -/
theorem removePriv_eq_iff (hother : ∀ e, e ≠ name → e ≠ pubName name → dir' e = dir e) :
    (removePriv dir' name io).1 = dir ↔
      (io.deletes = true ∧ dir name = none ∨ io.deletes = false ∧ dir' name = dir name) ∧
      dir' (pubName name) = dir (pubName name) := by
  have hpub : (removePriv dir' name io).1 (pubName name) = dir' (pubName name) := delete_other (pubName_ne name)
  have hname : (removePriv dir' name io).1 name = if io.deletes then none else dir' name := by
    unfold removePriv delete
    split_ifs
    · exact Function.update_self ..
    · rfl
  have hsame : (removePriv dir' name io).1 = dir ↔ (removePriv dir' name io).1 name = dir name ∧
      (removePriv dir' name io).1 (pubName name) = dir (pubName name) := by
    refine ⟨fun h => by simp [h], fun h => funext fun e => ?_⟩
    by_cases he : e = name
    · rw [he, h.1]
    · by_cases hep : e = pubName name
      · rw [hep, h.2]
      · exact (delete_other he).trans (hother e he hep)
  rw [hsame, hpub, hname]
  cases io.deletes with
  | true => simp [eq_comm]
  | false => simp

theorem untouched_write {content : Bytes} {w : Write} {text : Bytes} {w' : Write} :
    Untouched (write dir name content w).1 (pubName name) text w' ↔ Untouched dir (pubName name) text w' := by
  unfold Untouched
  rw [write_other (pubName_ne name)]

/-- A failure before the public key file is written. -/
theorem removePriv_written_iff {content : Bytes} :
    (removePriv (write dir name content io.writePriv).1 name io).1 = dir ↔
      (io.deletes = true ∧ dir name = none ∨ io.deletes = false ∧ Untouched dir name content io.writePriv) := by
  rw [removePriv_eq_iff fun e he _ => write_other he, write_self]
  exact and_iff_left (write_other (pubName_ne name))

/-- The public key file can be written after the private one exactly when it could be before. -/
theorem written_pub_iff {content bytes : Bytes} {w w' : Write} :
    (write (write dir name content w).1 (pubName name) bytes w').2 = true ↔ Writable dir (pubName name) w' := by
  rw [write_done, write_other (pubName_ne name)]
  rfl

theorem writePub_ok {content : Bytes} {text : JString} (hpub : Writable dir (pubName name) io.writePub) :
    (writePub (write dir name content io.writePriv).1 name io text).2 = true := by
  unfold writePub
  dsimp only
  rw [if_pos (written_pub_iff.mpr hpub)]

/-- A failure to write the public key file. -/
theorem writePub_failed_iff {content : Bytes} {text : JString} (hfailed : ¬ Writable dir (pubName name) io.writePub) :
    (writePub (write dir name content io.writePriv).1 name io text).2 = false ∧
    ((writePub (write dir name content io.writePriv).1 name io text).1 = dir ↔
      (io.deletes = true ∧ dir name = none ∨ io.deletes = false ∧ Untouched dir name content io.writePriv) ∧
      Untouched dir (pubName name) (keyLine text) io.writePub) := by
  have hpub : (write dir name content io.writePriv).1 (pubName name) = dir (pubName name) :=
    write_other (pubName_ne name)
  unfold writePub
  dsimp only
  rw [if_neg (mt written_pub_iff.mp hfailed)]
  refine ⟨rfl, ?_⟩
  rw [removePriv_eq_iff fun e he hep => (write_other hep).trans (write_other he),
    write_other (pubName_ne name).symm, write_self, ← hpub, write_self, untouched_write]

end Import

end Tinyhack.KeyFiles
