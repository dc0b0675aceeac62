import Keyring.Proofs.Store.Contest

/-!
# Of the calls that are to create a key, one does

Any number of calls are to create a key that there is not, each with a secret of its own, and make
their steps in any order. Each of them ends. A call whose secret cannot be encrypted ends in an
internal error. Of the others one creates the key, and the rest find that it exists.

- `Decides`: a call has won, and its record stands;
- `Legal.exists_decides`: when all calls have ended, one has, if the secret of any could be
  encrypted;
- `created_once`: this for every run.
-/

namespace Keyring.Store

/-- A call has made the record of a key, which is that of its secret, and it alone stores it from
then on. -/
structure Prevails (o : Store) (moves : List Move) (name : String) (id : Nat) (secret : Secret)
    (record : List UInt8) : Prop where
  made : Sealed o moves id secret record
  stores : ∀ later, Legal (Contends name) (o.run moves) later →
    ∃ stage, Since o ((o.run moves).run later) id ⟨name, .create secret, stage⟩ ∧
      stage.HasStored record (((o.run moves).run later).record? name)

/-- One of the calls that were made in a run to create a key has created it, and the others whose
secret could be encrypted have found that it exists. -/
structure Decides (o : Store) (moves : List Move) (name : String) (id : Nat) (secret : Secret)
    (record : List UInt8) : Prop extends Prevails o moves name id secret record where
  wins : Since o (o.run moves) id ⟨name, .create secret, .finished (.ok .done)⟩
  others : ∀ j other stage, j ≠ id → ¬NotSealed o moves j →
    Since o (o.run moves) j ⟨name, .create other, stage⟩ → stage = .finished (.error .keyExists)
  /-- Who gets the key from then on finds the secret if ciphertexts that were made of secrets can be
  read and are decrypted to these. -/
  gives : ∀ opens later,
    Legal (fun s m => Harmless opens Ciphertext.Readable name s (.move m)) o moves →
    Legal (fun s m => Contends name s m ∧ Harmless opens Ciphertext.Readable name s (.move m) ∧
      Answers opens name s (.move m)) (o.run moves) later →
    Given (· = .ok (.secret secret)) (o.run moves) ((o.run moves).run later) name

section

variable {o s : Store} {id : Nat} {name : String} {call : Call} {secret : Secret}
  {record : List UInt8} {moves later : List Move}
  {opens : Ciphertext → Option Secret} {kind : Ciphertext → Prop}

/-- A call that was made in a run and has created a key has returned at some move of the run. -/
theorem exists_completes {allows : Store → Move → Prop} (hsound : o.Sound)
    (hlegal : Legal allows o moves)
    (hwins : Since o (o.run moves) id ⟨name, .create secret, .finished (.ok .done)⟩) :
    ∃ before m after, moves = before ++ m :: after ∧
      Completes name secret (o.run before) (.move m) := by
  obtain ⟨hunknown, hfound⟩ := hwins
  induction moves using List.reverseRecOn with
  | nil => cases hunknown.symm.trans hfound
  | append_singleton moves m ih =>
    obtain ⟨hmoves, hfresh, -⟩ := legal_append.1 hlegal
    have hfound' := hfound
    rw [run_append] at hfound'
    cases hover : (o.run moves).outcome? id with
    | none => exact ⟨moves, m, [], rfl, id, hover, hfound'⟩
    | some outcome =>
      -- a call that was over before is left as it was
      obtain ⟨call, hcall, hstage⟩ := outcome?_eq_some_iff.1 hover
      obtain ⟨stage, hsame, hstays⟩ := exists_call_move (hmoves.sound hsound) hfresh hcall
      obtain ⟨n, operation, ended⟩ := call
      subst hstage
      obtain rfl := hstays outcome rfl
      obtain ⟨before, m', after, rfl, hcompletes⟩ :=
        ih hmoves (hcall.trans (hsame.symm.trans hfound'))
      exact ⟨before, m', after ++ [m], by simp, hcompletes⟩

section

variable (hsound : o.Sound) (hvalid : KeyName.Valid name) (habsent : o.Absent name)
  (hlegal : Legal (Contends name) o moves)

include hsound hvalid habsent hlegal

/-- No call that contends for a key removes its record. -/
theorem Legal.keepsRecord (hlater : Legal (Contends name) (o.run moves) later) :
    Legal (fun s m => KeepsRecord name s (.move m)) (o.run moves) later := by
  induction later generalizing moves with
  | nil => trivial
  | cons m later ih =>
    obtain ⟨hfresh, hcontends, hrest⟩ := hlater
    have hcontested := hlegal.contested hsound hvalid habsent
    refine ⟨hfresh, ?_, ?_⟩
    · cases m with
      | step id reply =>
        intro call hcall hname hremove
        subst hname
        have hfits := (hlegal.sound hsound).fits id call hcall
        rw [hremove] at hfits
        exact (hcontested.new hcall (by rw [hremove]; rfl)).2 hfits.2
      | _ => trivial
    · have hmoves : Legal (Contends name) o (moves ++ [m]) :=
        legal_append.2 ⟨hlegal, hfresh, hcontends, trivial⟩
      have hnext := ih hmoves
      rw [run_append] at hnext
      exact hnext hrest

/-- What the winner has created lasts. -/
theorem lasts_of_wins
    (hharmless : Legal (fun s m => Harmless opens kind name s (.move m)) o moves)
    (hwins : Since o (o.run moves) id ⟨name, .create secret, .finished (.ok .done)⟩) :
    (o.run moves).Reliable opens kind name ∧ ∃ record,
      SealsAs o.settings opens kind secret record ∧ (o.run moves).Lasts name secret record := by
  have hreliable := (hharmless.lawful.reliable hsound habsent.settled.reliable).2
  rw [befallAll_map_move] at hreliable
  refine ⟨hreliable, ?_⟩
  obtain ⟨before, m, after, rfl, hcompletes⟩ := exists_completes hsound hlegal hwins
  -- when the winner returned, what it had created lasted
  obtain ⟨hbefore, hreturns⟩ := legal_append.1 hharmless
  obtain ⟨hsound', hreliable'⟩ := hbefore.lawful.reliable hsound habsent.settled.reliable
  rw [befallAll_map_move] at hsound' hreliable'
  obtain ⟨hfresh, hone, hafter⟩ := hreturns.lawful
  obtain ⟨record, hseals, hlasts⟩ := hreliable'.lasts_of_completes hsound' hfresh hcompletes
  have hreturn : Lawful (Harmless opens kind name) (o.run before) [.move m] :=
    ⟨hfresh, hone, trivial⟩
  obtain ⟨hsound'', hreliable''⟩ := hreturn.reliable hsound' hreliable'
  have hsettings := hbefore.settings_eq hsound
  rw [hsettings] at hseals
  refine ⟨record, hseals, ?_⟩
  -- from then on nobody removes it
  obtain ⟨hfirst, hmove, hcontends, hrest⟩ := legal_append.1 hlegal
  have hmoves : Legal (Contends name) o (before ++ [m]) :=
    legal_append.2 ⟨hfirst, hmove, hcontends, trivial⟩
  have hkeeps := hmoves.keepsRecord hsound hvalid habsent (by rw [run_append]; exact hrest)
  rw [run_append] at hkeeps
  have hsame := hmoves.settings_eq hsound
  rw [run_append] at hsame
  obtain ⟨-, hlasting⟩ := (hafter.and hkeeps.lawful).lasts hsame (by simp) hsound'' hreliable''
    hseals hlasts
  rw [run_append]
  rwa [befall, befallAll_map_move] at hlasting

/-- Who has won goes on storing its record, or has stored it. -/
theorem Won.prevails (hwon : Won o (o.run moves) name id secret record)
    (hsealed : Sealed o moves id secret record) : Prevails o moves name id secret record where
  made := hsealed
  stores later hlater := by
    have hboth : Legal (Contends name) o (moves ++ later) := legal_append.2 ⟨hlegal, hlater⟩
    have hgoes := hboth.won hsound hvalid habsent hwon
    rw [run_append] at hgoes
    exact hgoes.stores

/-- Who has created a key that nobody comes to delete finds its secret. -/
theorem given_of_wins
    (hwins : Since o (o.run moves) id ⟨name, .create secret, .finished (.ok .done)⟩)
    (hharmless : Legal (fun s m => Harmless opens Ciphertext.Readable name s (.move m)) o moves)
    (hlater : Legal (fun s m => Contends name s m ∧
      Harmless opens Ciphertext.Readable name s (.move m) ∧ Answers opens name s (.move m))
      (o.run moves) later) :
    Given (· = .ok (.secret secret)) (o.run moves) ((o.run moves).run later) name := by
  obtain ⟨hreliable, record, hseals, hlasts⟩ :=
    lasts_of_wins hsound hvalid habsent hlegal hharmless hwins
  have hkeeps := hlegal.keepsRecord hsound hvalid habsent (hlater.imp fun _ _ h => h.1)
  have hharmless' : Legal (fun s m => Harmless opens Ciphertext.Readable name s (.move m))
      (o.run moves) later := hlater.imp fun _ _ h => h.2.1
  have hanswers : Legal (fun s m => Answers opens name s (.move m)) (o.run moves) later :=
    hlater.imp fun _ _ h => h.2.2
  have hsame := hlegal.settings_eq hsound
  rw [← hsame] at hseals
  have hgiven := (hharmless'.lawful.and (hkeeps.lawful.and hanswers.lawful)).gives (by simp)
    (hlegal.sound hsound) hreliable hseals hlasts
  rw [befallAll_map_move] at hgiven
  intro j call hcall hname hget hopen outcome hverdict
  -- a record that can be read is not found sealed
  rcases hgiven j call hcall hname hget hopen outcome hverdict with hok | ⟨hnone, -⟩
  · exact hok
  · have hsecret : Seals (o.run moves).settings opens secret record := hseals
    cases hnone.symm.trans hsecret.secretOf_eq

/-- When the record of a key is there, one call has made it. -/
theorem Legal.exists_prevails (hrecord : (o.run moves).record? name ≠ none) :
    ∃ id secret record, Prevails o moves name id secret record := by
  rcases (hlegal.contested hsound hvalid habsent).state with hvacant | ⟨id, x, bytes, hwon, hmade⟩
  · exact absurd hvacant.record hrecord
  · exact ⟨id, x, bytes, hwon.prevails hsound hvalid habsent hlegal hmade⟩

/-- When all calls that are to create a key have ended, and the secret of any could be encrypted,
one has created it. -/
theorem Legal.exists_decides
    (hended : ∀ id secret stage, Since o (o.run moves) id ⟨name, .create secret, stage⟩ →
      stage.isOver = true)
    (hsome : ∃ id secret stage, Since o (o.run moves) id ⟨name, .create secret, stage⟩ ∧
      ¬NotSealed o moves id) :
    ∃ id secret record, Decides o moves name id secret record := by
  have hcontested := hlegal.contested hsound hvalid habsent
  -- how a call may end that stores no record
  have hlost {taken : Prop} {j : Nat} {other : Secret} {stage : Stage}
      (hj : Since o (o.run moves) j ⟨name, .create other, stage⟩) (hloses : stage.Loses taken)
      (hencrypted : ¬NotSealed o moves j) : taken ∧ stage = .finished (.error .keyExists) := by
    obtain ⟨outcome, rfl⟩ := exists_finished (hended j other stage hj)
    rcases hloses with ⟨htaken, rfl⟩ | rfl
    · exact ⟨htaken, rfl⟩
    · exact absurd (hcontested.refused j _ hj rfl rfl) hencrypted
  rcases hcontested.state with hvacant | ⟨id, x, bytes, hwon, hmade⟩
  · obtain ⟨j, other, stage, hj, hencrypted⟩ := hsome
    exact (hlost hj (hvacant.loses j other stage hj) hencrypted).1.elim
  · obtain ⟨stage, hwinner, hstored⟩ := hwon.stores
    obtain ⟨outcome, rfl⟩ := exists_finished (hended id x stage hwinner)
    obtain ⟨rfl, -⟩ := hstored
    refine ⟨id, x, bytes, hwon.prevails hsound hvalid habsent hlegal hmade, hwinner,
      fun j other stage hne hencrypted hj => ?_, fun opens later hharmless hlater => ?_⟩
    · exact (hlost hj (hwon.loses j other stage hne hj) hencrypted).2
    · exact given_of_wins hsound hvalid habsent hlegal hwinner hharmless hlater

end

variable {settings : Settings} {disk : Disk} {now : Nat} {before : List Incident}

/-- **One call creates a key.** After any run there is no key of a name, and any number of calls are
made to create it, each with a secret of its own. They are interleaved in any way, with calls that
read the key, with calls for other keys and with evictions; nobody comes to delete the key, and
nothing fails but what is asked of the key management system.

Then each call ends, whatever it is answered. A call whose secret could not be encrypted has ended
in an internal error. As soon as there is a record, it is that of one call, which alone stores it
from then on. And when all of them have ended and the secret of any could be encrypted, one has
created the key, the others found that it exists, and who gets the key finds the secret of that
one. -/
theorem created_once (hbefore : Lawful (fun _ _ => True) (new settings disk now) before)
    (hvalid : KeyName.Valid name) (habsent : ((new settings disk now).befallAll before).Absent name)
    (hlegal : Legal (Contends name) ((new settings disk now).befallAll before) moves) :
    let s := (new settings disk now).befallAll before
    let t := s.run moves
    (∀ id call, t.calls.find? id = some call → call.name = name → ∀ replies,
      ∃ count outcome, (t.run (ownSteps id replies count)).outcome? id = some outcome) ∧
    (∀ id, NotSealed s moves id →
      t.outcome? id = some (.error (.internal "cannot encrypt key"))) ∧
    (t.record? name ≠ none → ∃ id secret record, Prevails s moves name id secret record) ∧
    ((∀ id secret stage, Since s t id ⟨name, .create secret, stage⟩ → stage.isOver = true) →
      (∃ id secret stage, Since s t id ⟨name, .create secret, stage⟩ ∧ ¬NotSealed s moves id) →
      ∃ id secret record, Decides s moves name id secret record) := by
  intro s t
  have hsound : s.Sound := hbefore.sound (sound_new settings disk now)
  refine ⟨fun id call hcall hname replies => ?_, fun id hrefused => hrefused.outcome hsound hlegal,
    hlegal.exists_prevails hsound hvalid habsent, hlegal.exists_decides hsound hvalid habsent⟩
  -- the calls share the lock of the key
  have hcontested := hlegal.contested hsound hvalid habsent
  have hshared : t.Shared name := by
    intro j other hother hsame hdelete
    by_cases hunknown : s.calls.find? j = none
    · exact absurd hdelete (hcontested.operation j other ⟨hunknown, hother⟩ hsame)
    · exact hcontested.old j other hother hsame hunknown
  have hmoves : Legal (fun _ _ => True) s moves := hlegal.imp fun _ _ _ => trivial
  have hlawful : Lawful (fun _ _ => True) (new settings disk now) (before ++ moves.map .move) :=
    lawful_append.2 ⟨hbefore, hmoves.lawful⟩
  have hend : (new settings disk now).befallAll (before ++ moves.map .move) = t := by
    rw [befallAll_append, befallAll_map_move]
  rw [← hend] at hshared hcall ⊢
  exact hlawful.ends_of_shared hshared hcall hname replies

end

namespace Sample

/-- The ciphertext of the other secret. -/
def otherCiphertext : Ciphertext := ⟨"k", [0x08]⟩

/-- The key management system deals with the other secret, or refuses to. -/
def otherReply (encrypted : Except KmsFault Ciphertext) : Reply :=
  { device := .accept 100, encrypted, decrypted := .ok otherSecret }

/-- Two ciphertexts open. -/
def opensBoth (c : Ciphertext) : Option Secret :=
  if c = otherCiphertext then some otherSecret else opens c

/-- Three calls are to create a key. The first is about to make the file when the second one makes
it, and the third cannot have its secret encrypted. The cache loses the name when the second is
done. -/
def contend : List Move :=
  .call 1 "a" (.create secret) :: .call 2 "a" (.create otherSecret) ::
    .call 3 "a" (.create otherSecret) :: steps 1 8 ++ steps 2 3 ++
    .step 2 (otherReply (.ok otherCiphertext)) :: steps 2 5 ++ steps 1 1 ++ steps 3 3 ++
    .step 3 (otherReply (.error .notAuthentic)) :: steps 2 5 ++ [.evict "a"] ++ steps 1 1

/-- The key is read, and then again. -/
def readAfterContest : List Move :=
  .call 4 "a" .get :: steps 4 6 ++ .step 4 (otherReply (.ok otherCiphertext)) :: steps 4 2 ++
    .call 5 "a" .get :: steps 5 2

/-- A store whose directory is given by a path through the place of a key. -/
def filesThroughKey : Store :=
  new (settings (.files "keys/a/..") none) (Disk.empty [] 0) 0

/-- Two calls are to create that key, one after the other. -/
def createInTurn : List Move :=
  .call 1 "a" (.create secret) :: steps 1 10 ++ .call 2 "a" (.create otherSecret) :: steps 2 10

end Sample

/-- Of three calls the one that makes the file first creates the key, and who gets it from then on
finds the secret of that one. -/
theorem created_once_inTurns :
    let s := Sample.filesWith (some "k")
    let t := s.run Sample.contend
    (∃ record, Decides s Sample.contend "a" 2 Sample.otherSecret record) ∧
      t.outcome? 3 = some (.error (.internal "cannot encrypt key")) ∧
      (t.run Sample.readAfterContest).outcome? 4 = some (.ok (.secret Sample.otherSecret)) := by
  intro s t
  have hbefore : Lawful (fun _ _ => True) s [] := trivial
  have hvalid : KeyName.Valid "a" := by decide +kernel
  have habsent : s.Absent "a" := by decide +kernel
  have hlegal : Legal (Contends "a") s Sample.contend := by decide +kernel
  obtain ⟨-, hrefused, -, hdecides⟩ := created_once hbefore hvalid habsent hlegal
  have hsettled : t.Settled "a" := by decide +kernel
  have hwinner : ∀ e ∈ t.calls.entries, e.2.stage = .finished (.ok .done) →
      e.1 = 2 ∧ e.2.operation = .create Sample.otherSecret := by decide +kernel
  have hsecond : Since s t 2 ⟨"a", .create Sample.otherSecret, .finished (.ok .done)⟩ :=
    ⟨by decide +kernel, by decide +kernel⟩
  have hencrypted : ¬NotSealed s Sample.contend 2 := by
    intro hfails
    have hdone : t.outcome? 2 = some (.ok .done) := by decide +kernel
    cases hdone.symm.trans (hrefused 2 hfails)
  obtain ⟨id, x, record, hone⟩ := hdecides
    (fun j other stage hj => hsettled (j, _) (FiniteMap.mem_entries_iff.2 hj.found) rfl)
    ⟨2, _, _, hsecond, hencrypted⟩
  obtain ⟨rfl, hcreate⟩ := hwinner (id, _) (FiniteMap.mem_entries_iff.2 hone.wins.found) rfl
  obtain rfl := Operation.create.inj hcreate
  have hfails : NotSealed s Sample.contend 3 :=
    ⟨Sample.contend.take 24, _, Sample.otherSecret, .notAuthentic, ⟨Sample.contend.drop 25, rfl⟩,
      by decide +kernel, rfl⟩
  have hharmless : Legal (fun s m => Harmless Sample.opensBoth Ciphertext.Readable "a" s (.move m))
      s Sample.contend := by decide +kernel
  have hlater : Legal (fun s m => Contends "a" s m ∧
      Harmless Sample.opensBoth Ciphertext.Readable "a" s (.move m) ∧
      Answers Sample.opensBoth "a" s (.move m)) t Sample.readAfterContest := by decide +kernel
  have hgiven := hone.gives Sample.opensBoth _ hharmless hlater
  have hopen : t.Open 4 := by unfold Open; decide +kernel
  obtain ⟨outcome, houtcome, rfl⟩ := hgiven.exists_outcome hopen (by decide +kernel)
  exact ⟨⟨record, hone⟩, hrefused 3 hfails, houtcome⟩

/-- A path may lead through the place of a key's file, so that a directory comes to stand there:
then no call creates the key, and each finds that it exists. And a record is empty when its file has
been made. -/
theorem none_created_throughKey :
    let s := Sample.filesThroughKey
    let t := s.run Sample.createInTurn
    let u := (Sample.filesWith none).run (.call 1 "a" (.create Sample.secret) :: Sample.steps 1 8)
    (KeyName.Valid "a" ∧ s.record? "a" = none ∧ s.cached? "a" = none ∧ s.Settled "a" ∧
      Legal (Contends "a") s Sample.createInTurn ∧
      t.outcome? 1 = some (.error .keyExists) ∧ t.outcome? 2 = some (.error .keyExists) ∧
      t.record? "a" = none) ∧
    u.stage? 1 = some (.work (.write Sample.secret (plainRecord Sample.secret) 0)) ∧
      u.record? "a" = some [] := by
  decide +kernel

end Keyring.Store
