import JackCompiler.Files.Host
/-!
# Laws of hosts

What is proved of the program holds on every host with a few laws. They speak of what can be seen of
a host: the files, directories and devices that there are, which of them a path leads to, what they
hold, and what has been printed. Links, second names and letter case show in what a path leads to,
and nowhere else. A text is written whole, or taken by a device, which keeps nothing of it, or
nothing changes; a directory is made or nothing changes; what a path leads to stays where it is; a
channel that refuses a text has printed a front of it. Every operation may be refused at any time.

        A.vm  ──▶  ○  ◀──  B.jack        two paths, one file
-/

namespace JackCompiler

/-- What stands at the end of a path: a file with its bytes, a directory or a device. -/
inductive Content
  | file (bytes : ByteArray)
  | directory
  | device

/-- What can be seen of the states of a host. -/
class View (σ : Type) where
  /-- The files, directories and devices, whatever their names. -/
  Node : Type
  /-- What a path leads to. -/
  reach : σ → String → Option Node
  content : σ → Node → Option Content
  printed : σ → Channel → String

export View (Node reach content printed)

variable {σ : Type}

/-- What comes of an action in a state, and the state behind it. -/
def perform {α : Type} (x : StateM σ α) (s : σ) : α × σ := x.run s

theorem perform_bind {α β : Type} (x : StateM σ α) (f : α → StateM σ β) (s : σ) :
    perform (x >>= f) s = perform (f (perform x s).1) (perform x s).2 := rfl

section

variable [View σ]

/-- The text of the file that a path leads to. -/
def textAt (s : σ) (path : String) : Option String :=
  (reach s path).bind fun n =>
    match content s n with
    | some (.file bytes) => String.fromUTF8? bytes
    | _ => none

/-- The path leads to a file with the text, or to a device. -/
def Carries (s : σ) (path text : String) : Prop :=
  ∃ n, reach s path = some n ∧
    (content s n = some (.file text.toUTF8) ∨ content s n = some .device)

/-- The same stands in the same places, and so do the ways there. -/
structure SameFiles (s s' : σ) : Prop where
  reach : reach s' = reach s
  content : content s' = content s

/-- Nothing changes that can be seen. -/
structure Still (s s' : σ) : Prop extends SameFiles s s' where
  printed : printed s' = printed s

/-- A channel prints a text, and nothing else changes. -/
structure Prints (channel : Channel) (text : String) (s s' : σ) : Prop extends SameFiles s s' where
  here : printed s' channel = printed s channel ++ text
  elsewhere : ∀ other, other ≠ channel → printed s' other = printed s other

/-- The path leads to the node, which has the content, and no other node changes. What could be
reached is reached still. -/
structure Puts (path : String) (n : Node σ) (entry : Content) (s s' : σ) : Prop where
  reached : reach s' path = some n
  placed : content s' n = some entry
  others : ∀ k, k ≠ n → content s' k = content s k
  kept : ∀ p k, reach s p = some k → reach s' p = some k
  printed : printed s' = printed s

/-- A device at the end of the path takes a text. It may print it. -/
structure Takes (path : String) (n : Node σ) (s s' : σ) : Prop extends SameFiles s s' where
  reached : JackCompiler.reach s path = some n
  device : JackCompiler.content s n = some .device

/-- The text has been written to the path: it stands there, or a device has taken it. -/
def Writes (path text : String) (s s' : σ) : Prop :=
  ∃ n, Puts path n (.file text.toUTF8) s s' ∨ Takes path n s s'

/-- **The laws of a host.** -/
class LawfulHost (σ : Type) [Host (StateM σ)] [View σ] : Prop where
  kindOf (s : σ) (path : String) : Still s (perform (Host.kindOf path) s).2
  filesIn (s : σ) (path : String) : Still s (perform (Host.filesIn path) s).2
  now (s : σ) : Still s (perform Host.now s).2
  read (s : σ) (path : String) : Still s (perform (Host.read path) s).2
  read_ok (s : σ) (path : String) (bytes : ByteArray) :
    (perform (Host.read path) s).1 = .ok bytes → ∃ n, reach s path = some n ∧
      (content s n = some (.file bytes) ∨ content s n = some .device)
  write_ok (s : σ) (path text : String) : (perform (Host.write path text) s).1 = .ok () →
    Writes path text s (perform (Host.write path text) s).2
  write_error (s : σ) (path text : String) (e : FileError) :
    (perform (Host.write path text) s).1 = .error e →
    Still s (perform (Host.write path text) s).2
  makeDirectory_ok (s : σ) (path : String) : (perform (Host.makeDirectory path) s).1 = .ok () →
    ∃ n, content s n = none ∧ Puts path n .directory s (perform (Host.makeDirectory path) s).2
  makeDirectory_error (s : σ) (path : String) (e : FileError) :
    (perform (Host.makeDirectory path) s).1 = .error e →
    Still s (perform (Host.makeDirectory path) s).2
  print_ok (s : σ) (channel : Channel) (text : String) :
    (perform (Host.print channel text) s).1 = .ok () →
    Prints channel text s (perform (Host.print channel text) s).2
  print_error (s : σ) (channel : Channel) (text : String) (e : FileError) :
    (perform (Host.print channel text) s).1 = .error e →
    ∃ front, front.toList <+: text.toList ∧
      Prints channel front s (perform (Host.print channel text) s).2

/-- The channel has just refused a text: the state is the one behind it. -/
def HasRefused [Host (StateM σ)] (channel : Channel) (cause : FileError) (s : σ) : Prop :=
  ∃ (before : σ) (text : String), perform (Host.print channel text) before = (.error cause, s)

/-! ### One after the other -/

variable {s s' s'' : σ} {channel : Channel} {text text' path : String}

theorem SameFiles.refl (s : σ) : SameFiles s s := ⟨rfl, rfl⟩

theorem SameFiles.trans (h : SameFiles s s') (h' : SameFiles s' s'') : SameFiles s s'' :=
  ⟨h'.reach.trans h.reach, h'.content.trans h.content⟩

/-- The same texts stand at the same paths. -/
theorem SameFiles.carries (h : SameFiles s s') : Carries s' path text ↔ Carries s path text := by
  rw [Carries, Carries, h.reach, h.content]

/-- What has been written to a path is there, or has been taken by a device. -/
theorem Writes.carries (h : Writes path text s s') : Carries s' path text := by
  obtain ⟨n, puts | takes⟩ := h
  · exact ⟨n, puts.reached, .inl puts.placed⟩
  · exact takes.toSameFiles.carries.2 ⟨n, takes.reached, .inr takes.device⟩

theorem Still.refl (s : σ) : Still s s := ⟨.refl s, rfl⟩

theorem Still.trans (h : Still s s') (h' : Still s' s'') : Still s s'' :=
  ⟨h.toSameFiles.trans h'.toSameFiles, h'.printed.trans h.printed⟩

/-- Nothing is printed. -/
theorem Still.prints (h : Still s s') (channel : Channel) : Prints channel "" s s' :=
  ⟨h.toSameFiles, by rw [h.printed, String.append_empty], fun _ _ => by rw [h.printed]⟩

theorem Prints.trans (h : Prints channel text s s') (h' : Prints channel text' s' s'') :
    Prints channel (text ++ text') s s'' := by
  refine ⟨h.toSameFiles.trans h'.toSameFiles, ?_, fun other apart => ?_⟩
  · rw [h'.here, h.here, String.append_assoc]
  · rw [h'.elsewhere other apart, h.elsewhere other apart]

end

end JackCompiler
