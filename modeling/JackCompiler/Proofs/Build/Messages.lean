import JackCompiler.Build.Run
import JackCompiler.Files.World
import JackCompiler.Proofs.Generation.Pieces
import JackCompiler.Proofs.Refusals
/-!
# Messages and the outcome of a source text

Whatever messages are asked for, compiling a text comes down to a result that the text alone
decides, with lines on the channel of messages printed on the way. A text that is compiled is
compiled with all messages, as its tokens have been read to the end by then. A text that is refused
is refused with the same error, unless its tokens are printed and the scanner refuses it further
down: the tokens are asked for first, so that error comes in front of the first one.

        class 1 #          parse error at 1
        class 1 #          with tokens printed: lexical error at #
-/

namespace JackCompiler

/-- The tokens of a text that is compiled do not end in an error. -/
theorem tokenize_of_compile {source : String} {chunk : Chunk} (h : compile source = .ok chunk) :
    ∃ tokens, tokenize source = .ok tokens := by
  obtain ⟨tree, read, -⟩ := generated_bind.1 h
  exact ClassTree.tokenize_of_ofSource read

namespace Build

/-- The chunk of a text or the error that is reported: where tokens are printed, an error among them
comes first. -/
def sourceOutcome (o : Options) (source : String) : Except CompileError Chunk :=
  if o.printTokens then tokenize source >>= fun _ => compile source else compile source

section

variable {o : Options} {source : String}

theorem sourceOutcome_eq_ok {chunk : Chunk} :
    sourceOutcome o source = .ok chunk ↔ compile source = .ok chunk := by
  rw [sourceOutcome]
  split
  · rw [generated_bind]
    constructor
    · rintro ⟨_, -, h⟩
      exact h
    · intro h
      obtain ⟨tokens, read⟩ := tokenize_of_compile h
      exact ⟨tokens, read, h⟩
  · rfl

/-- Without an error among the tokens it makes no difference whether they are printed. -/
theorem sourceOutcome_eq_compile
    (h : o.printTokens = true → ∃ tokens, tokenize source = .ok tokens) :
    sourceOutcome o source = compile source := by
  rw [sourceOutcome]
  split
  · next printed =>
    obtain ⟨tokens, read⟩ := h printed
    rw [read]
    rfl
  · rfl

theorem sourceOutcome_of_tokenize {e : CompileError} (printed : o.printTokens = true)
    (h : tokenize source = .error e) : sourceOutcome o source = .error e := by
  rw [sourceOutcome, if_pos printed, h]
  rfl

end

/-! ### Messages -/

variable {m : Type → Type} [Monad m] [Host m] {α β : Type}

/-- The action prints on the channel of messages and reads the clock, and does nothing else. It ends
the program where the channel refuses a message. -/
inductive Talk (o : Options) : ExceptT BuildError m Unit → Prop
  | nothing : Talk o (pure ())
  | line (text : String) : Talk o (say (diagnosticChannel o) text)
  | timed {f : Nat → ExceptT BuildError m Unit} : (∀ t, Talk o (f t)) → Talk o (Host.now >>= f)
  | both {a b : ExceptT BuildError m Unit} : Talk o a → Talk o b → Talk o (a >>= fun _ => b)

/-- The action comes to a result whatever the host answers, with nothing but messages on the way. -/
def Says (o : Options) (x : ExceptT BuildError m α) (r : Except BuildError α) : Prop :=
  ∃ talk : ExceptT BuildError m Unit, Talk o talk ∧ x = talk >>= fun _ => ExceptT.mk (pure r)

section

variable [LawfulMonad m] {o : Options} {x : ExceptT BuildError m α} {f : α → ExceptT BuildError m β}

theorem Says.of_eq {r : Except BuildError α} (h : x = ExceptT.mk (pure r)) : Says o x r :=
  ⟨pure (), .nothing, by rw [h, pure_bind]⟩

theorem Says.bind {a : α} {r : Except BuildError β} (hx : Says o x (.ok a)) (hf : Says o (f a) r) :
    Says o (x >>= f) r := by
  obtain ⟨first, talks, rfl⟩ := hx
  obtain ⟨second, talks', same⟩ := hf
  refine ⟨_, talks.both talks', ?_⟩
  have value : (ExceptT.mk (pure (Except.ok a)) : ExceptT BuildError m α) = pure a := rfl
  rw [bind_assoc, bind_assoc, value]
  simp only [pure_bind, same]

theorem Says.bind_error {e : BuildError} (hx : Says o x (.error e)) :
    Says o (x >>= f) (.error e) := by
  obtain ⟨talk, talks, rfl⟩ := hx
  refine ⟨talk, talks, ?_⟩
  have failure : (ExceptT.mk (pure (Except.error e)) : ExceptT BuildError m α) >>= f =
      ExceptT.mk (pure (.error e)) := by
    refine ExceptT.ext ?_
    simp [ExceptT.run_bind]
  rw [bind_assoc, failure]

/-- What the clock shows does not matter where everything that follows comes to the same. -/
theorem Says.now {f : Nat → ExceptT BuildError m β} {r : Except BuildError β}
    (h : ∀ t, Says o (f t) r) : Says o (Host.now >>= f) r := by
  choose talk talks same using h
  refine ⟨Host.now >>= talk, .timed talks, ?_⟩
  rw [bind_assoc]
  simp only [← same]

/-- Where every text is printed, the messages come to an end, and so the result is what there is. -/
theorem Says.run_eq {r : Except BuildError α} (h : Says o x r)
    (taken : ∀ channel text, (Host.print channel text : m (Except FileError Unit)) =
      Host.print channel text >>= fun _ => pure (.ok ())) :
    ∃ talk : m Unit, x.run = talk >>= fun _ => pure r := by
  obtain ⟨talk, talks, rfl⟩ := h
  suffices whole : ∃ quiet : m Unit, talk.run = quiet >>= fun _ => pure (.ok ()) by
    obtain ⟨quiet, same⟩ := whole
    exact ⟨quiet, by simp [ExceptT.run_bind, same]⟩
  induction talks with
  | nothing => exact ⟨pure (), by simp⟩
  | line text =>
    have printed : (say (diagnosticChannel o) text : ExceptT BuildError m Unit) =
      ExceptT.lift (Host.print (diagnosticChannel o) text) >>=
        Build.demand (.unprinted (diagnosticChannel o)) := rfl
    refine ⟨Host.print (diagnosticChannel o) text >>= fun _ => pure (), ?_⟩
    rw [printed, ExceptT.run_bind, ExceptT.run_lift, taken]
    simp [Build.demand]
  | @timed f _ ih =>
    choose quiet same using ih
    refine ⟨Host.now >>= quiet, ?_⟩
    have clock : (Host.now : ExceptT BuildError m Nat) = ExceptT.lift Host.now := rfl
    simp [ExceptT.run_bind, clock, same]
  | both _ _ first second =>
    obtain ⟨quiet, same⟩ := first
    obtain ⟨quiet', same'⟩ := second
    exact ⟨quiet >>= fun _ => quiet', by simp [ExceptT.run_bind, same, same']⟩

theorem says_diagnose (line : String) :
    Says o (diagnose o line : ExceptT BuildError m Unit) (.ok ()) :=
  ⟨_, .line (line ++ "\n"), (bind_pure _).symm⟩

/-- What a stage gives is demanded, and the next stage goes on with it. -/
theorem Says.demand {ε : Type} {k : ε → BuildError} {v : Except ε α} {g : α → Except ε β}
    (h : ∀ a, Says o (f a) ((g a).mapError k)) :
    Says o (Build.demand k v >>= f) ((v >>= g).mapError k) := by
  cases v with
  | ok a => exact (Says.of_eq rfl).bind (h a)
  | error e => exact (Says.of_eq rfl).bind_error

theorem says_reportTime (what path : String) (start : Nat) :
    Says o (reportTime o what path start : ExceptT BuildError m Unit) (.ok ()) := by
  rw [reportTime]
  split
  · exact .now fun stop => says_diagnose _
  · exact .of_eq rfl

theorem says_forM (lines : List α) (f : α → String) :
    Says o (lines.forM fun a => (diagnose o (f a) : ExceptT BuildError m Unit)) (.ok ()) := by
  induction lines with
  | nil => exact .of_eq rfl
  | cons a lines ih => exact (says_diagnose _).bind ih

/-- **Compiling a text comes to what the text decides.** -/
theorem says_compileSource (path source : String) :
    Says o (compileSource o path source : ExceptT BuildError m Chunk)
      ((sourceOutcome o source).mapError (.compile path)) := by
  have generated (tree : ClassTree) : Says o (do
      let start ← Host.now
      let chunk ← Build.demand (.compile path) tree.chunk
      reportTime o "Codegen" path start
      return chunk : ExceptT BuildError m Chunk) (tree.chunk.mapError (.compile path)) := by
    refine .now fun start => ?_
    have timed (chunk : Chunk) : Says o (do
        reportTime o "Codegen" path start
        return chunk : ExceptT BuildError m Chunk) (.ok chunk) :=
      (says_reportTime _ _ _).bind (.of_eq rfl)
    have last := Says.demand (k := .compile path) (v := tree.chunk) (g := pure) timed
    rwa [bind_pure] at last
  have compiled : Says o (do
      let start ← Host.now
      let tree ← Build.demand (.compile path) (ClassTree.ofSource source)
      reportTime o "Parsed" path start
      if o.printTree then diagnose o tree.render
      let start ← Host.now
      let chunk ← Build.demand (.compile path) tree.chunk
      reportTime o "Codegen" path start
      return chunk : ExceptT BuildError m Chunk)
      ((compile source).mapError (.compile path)) := by
    refine .now fun start => .demand fun tree => (says_reportTime _ _ _).bind ?_
    split
    · exact (says_diagnose _).bind (generated tree)
    · exact generated tree
  rw [compileSource, sourceOutcome]
  split
  · rw [printTokens, bind_assoc]
    exact .demand fun tokens => (says_forM _ _).bind compiled
  · exact compiled

/-- **Messages change nothing about a text that is compiled, and nothing about the error of one that
is refused, unless tokens are printed that end in an error of their own.** -/
theorem compileSource_outcome (o : Options) (path source : String) :
    (∀ chunk, compile source = .ok chunk →
      Says o (compileSource o path source : ExceptT BuildError m Chunk) (.ok chunk)) ∧
    (∀ e, compile source = .error e →
      (o.printTokens = true → ∃ tokens, tokenize source = .ok tokens) →
      Says o (compileSource o path source : ExceptT BuildError m Chunk)
        (.error (.compile path e))) ∧
    (∀ e, o.printTokens = true → tokenize source = .error e →
      Says o (compileSource o path source : ExceptT BuildError m Chunk)
        (.error (.compile path e))) := by
  have said := says_compileSource (m := m) (o := o) path source
  refine ⟨fun chunk h => ?_, fun e h whole => ?_, fun e printed h => ?_⟩
  · rwa [sourceOutcome_eq_ok.2 h] at said
  · rwa [sourceOutcome_eq_compile whole, h] at said
  · rwa [sourceOutcome_of_tokenize printed h] at said

end

/-- Every message there is. -/
def allMessages : Options := { printTokens := true, printTree := true, verbose := true }

/-- With every message, a class is compiled, a number in place of a name is reported, and so is what
opens no lexeme behind a name. -/
theorem compileSource_outcome_allMessages :
    (∃ chunk, compile "class A \x7b \x7d" = .ok chunk ∧
      Says allMessages (compileSource allMessages "A.jack" "class A \x7b \x7d" :
        ExceptT BuildError (StateM World) Chunk) (.ok chunk)) ∧
    (∃ e, compile "class 1" = .error e ∧ (∃ tokens, tokenize "class 1" = .ok tokens) ∧
      Says allMessages (compileSource allMessages "A.jack" "class 1" :
        ExceptT BuildError (StateM World) Chunk) (.error (.compile "A.jack" e))) ∧
    (∃ e, tokenize "class A #" = .error e ∧
      Says allMessages (compileSource allMessages "A.jack" "class A #" :
        ExceptT BuildError (StateM World) Chunk) (.error (.compile "A.jack" e))) := by
  have outcome (source : String) :=
    compileSource_outcome (m := StateM World) allMessages "A.jack" source
  refine ⟨⟨_, rfl, (outcome _).1 _ rfl⟩, ⟨_, rfl, ⟨_, rfl⟩, ?_⟩, ⟨_, rfl, ?_⟩⟩
  · exact (outcome _).2.1 _ rfl fun _ => ⟨_, rfl⟩
  · exact (outcome _).2.2 _ rfl rfl

/-- A text with two errors: the number is the first, and with the tokens printed it is not the one
reported. -/
theorem later_error_reported : ∃ first later,
    compile "class 1 #" = .error first ∧
    ((compileSource { printTokens := true } "A.jack" "class 1 #" :
        ExceptT BuildError (StateM World) Chunk).run (World.fresh ["home"])).1 =
      .error (.compile "A.jack" later) ∧
    first.kind = .parse ∧ later.kind = .lexical :=
  ⟨_, _, rfl, rfl, rfl, rfl⟩

end Build

end JackCompiler
