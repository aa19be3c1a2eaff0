import WagoHttp.Http1.Counters

/-!
# Pieces

The octets of a connection reach the parser in pieces. Giving it the pieces one after another comes
to the same as giving it all of them at once: the same code, the same number of octets consumed and
the same parser. The callbacks are the same when adjacent parts of a token are joined; when the
parser fails in the middle of a token, the part of it before the failure may have been reported or
not.
-/

namespace WagoHttp.Http1

open Trace Buffered

/-- The callbacks with adjacent parts of a token joined. -/
def merged (calls : List Call) : List (Entry Token UInt8 Call) := merge (calls.map Call.entry)

/-- The callbacks up to the end of the last message that was completed. -/
def completed (calls : List Call) : List (Entry Token UInt8 Call) :=
  settled Call.completes (merged calls)

/-- Give the parser one piece after another, up to the first that does not return `CodeNone`. -/
def Parser.parsePieces (env : Env) (p : Parser) (first : Bytes) : List Bytes → Parsed
  | [] => p.parse env first
  | second :: rest =>
    let r := p.parse env first
    if r.code ≠ .none then r else (Parser.parsePieces env r.parser second rest).after r.n r.calls

namespace Parser

variable {p : Parser} {env : Env} {first : Bytes} {rest : List Bytes}

/-- The parser as a call of `Parse` finds it. -/
def unpaused (p : Parser) : Parser := { p with pauseAfterMessage := false, paused := false }

theorem unpaused_eq (hpause : p.pauseAfterMessage = false) (hpaused : p.paused = false) :
    p.unpaused = p := by
  cases p
  subst hpause hpaused
  rfl

/-- A parser that has failed or switched protocols returns at once. -/
theorem parse_stopped (src : Bytes) (h : p.code ≠ .none ∨ p.state = .upgrade) :
    p.parse env src =
      { parser := p.unpaused, code := if p.code ≠ .none then p.code else .upgrade } := by
  simp only [parse, runParse, parseAll]
  split_ifs with hcode hup
  · rfl
  · rfl
  · exact absurd h (by simp [not_not.mp hcode, hup])

theorem parsePieces_stopped (h : p.code ≠ .none ∨ p.state = .upgrade) :
    p.parsePieces env first rest =
      { parser := p.unpaused, code := if p.code ≠ .none then p.code else .upgrade } := by
  have hne : (if p.code ≠ .none then p.code else .upgrade) ≠ .none := by
    split_ifs with hcode
    · exact hcode
    · decide
  cases rest with
  | nil => exact parse_stopped first h
  | cons second rest => simp only [parsePieces, parse_stopped first h, if_pos hne]

/-- A parser that is not to pause does not. -/
theorem unpaused_loop (fuel : ℕ) (src : Bytes) (hpause : p.pauseAfterMessage = false)
    (hpaused : p.paused = false) (h : (p.loop env fuel src).parser.code = .none) :
    (p.loop env fuel src).parser.pauseAfterMessage = false ∧
      (p.loop env fuel src).parser.paused = false := by
  induction fuel generalizing p src with
  | zero => exact ⟨hpause, hpaused⟩
  | succ fuel ih =>
    cases src with
    | nil => exact ⟨hpause, hpaused⟩
    | cons b src =>
      have hpass : (p.pass env b src).parser.code = .none →
          (p.pass env b src).parser.pauseAfterMessage = false ∧
            (p.pass env b src).parser.paused = false := by
        intro hcode
        obtain hgo | hdone : _ ∨ _ := goes_pass hcode
        · exact ⟨hgo.pause.trans hpause, hgo.paused.trans hpaused⟩
        · exact ⟨hdone.pause.trans hpause, hdone.paused.trans hpause⟩
      simp only [loop] at h ⊢
      split_ifs at h ⊢ with hp hcode hup
      · exact ⟨hpause, hpaused⟩
      · exact absurd h hcode
      · exact hpass h
      · exact ih _ (hpass (not_not.mp hcode)).1 (hpass (not_not.mp hcode)).2 h

/-- The result of a call is what a reader has done, and the parser is not to pause. -/
structure Reads (r : Parsed) (o : Outcome Parser UInt8 Token Call Stop) : Prop where
  parser : r.parser = { o.state with pauseAfterMessage := false }
  n : r.n = o.taken
  code : r.code = Stop.code o.stop
  calls : r.calls.map Call.entry = o.trace

/-- A result that is not an error is not one for the reader. -/
theorem Reads.fine {r : Parsed} {o : Outcome Parser UInt8 Token Call Stop} (h : Reads r o)
    (hstop : o.stop = o.state.stop) (hr : r.parser.code ≠ .upgrade)
    (hcode : r.code = .none ∨ r.code = .upgrade) : ∀ c, o.stop = some c → c.Fine := by
  intro c hc
  rw [h.code, hc] at hcode
  cases c with
  | upgraded => trivial
  | paused => trivial
  | failed code =>
    rw [h.parser] at hr
    rw [hstop, Parser.stop] at hc
    split_ifs at hc with hne
    all_goals cases hc
    exact hcode.elim hne hr

theorem parse_reads (src : Bytes) (h : p.unpaused.stop = none) :
    Reads (p.parse env src) ((reader env).run p.unpaused src) := by
  have hall : Parsed.Shows (p.unpaused.parseAll env src) _ := parseAll_shows h
  exact ⟨congrArg (fun q : Parser => { q with pauseAfterMessage := false }) hall.parser, hall.n,
    hall.code, hall.calls⟩

/-- A call that returns `CodeNone` leaves the parser as the reader goes on with it. -/
theorem run_unpaused {src : Bytes} (h : p.unpaused.stop = none)
    (hcode : Stop.code ((reader env).run p.unpaused src).stop = .none) :
    ((reader env).run p.unpaused src).stop = none ∧
      Parser.unpaused { ((reader env).run p.unpaused src).state with pauseAfterMessage := false } =
        ((reader env).run p.unpaused src).state := by
  have hstop : ((reader env).run p.unpaused src).stop =
      ((reader env).run p.unpaused src).state.stop := loop_stop (2 * src.length) src h
  have hflags : ((reader env).run p.unpaused src).state.code = .none →
      ((reader env).run p.unpaused src).state.pauseAfterMessage = false ∧
        ((reader env).run p.unpaused src).state.paused = false := by
    have hparser : (p.unpaused.loop env (2 * src.length) src).parser =
        ((reader env).run p.unpaused src).state := (loop_shows _ _ h).parser
    rw [← hparser]
    exact unpaused_loop (2 * src.length) src rfl rfl
  generalize (reader env).run p.unpaused src = o at hcode hstop hflags
  by_cases hc : o.state.code = .none
  · obtain ⟨hpause, hpaused⟩ := hflags hc
    have hup : o.state.state ≠ .upgrade := by
      intro hup
      rw [hstop, Parser.stop, if_neg (not_not.mpr hc), if_pos hup] at hcode
      cases hcode
    refine ⟨by rw [hstop]; exact stop_eq_none.mpr ⟨hc, hup, hpaused⟩, ?_⟩
    exact unpaused_eq hpause hpaused
  · rw [hstop, stop_of_code hc] at hcode
    exact absurd hcode hc

theorem parsePieces_reads (hp : p.unpaused.Reading) :
    Reads (p.parsePieces env first rest) ((reader env).feed p.unpaused (first :: rest)) := by
  have hfirst : Reads (p.parse env first) _ := parse_reads first hp.stop
  induction rest generalizing p first with
  | nil =>
    simp only [parsePieces, Reader.feed]
    rw [show (fun q => (Outcome.idle q : Outcome Parser UInt8 Token Call Stop)) = Outcome.idle
      from rfl, Outcome.andThen_idle]
    exact hfirst
  | cons second rest ih =>
    rw [Reader.feed]
    simp only [parsePieces]
    by_cases hcode : (p.parse env first).code = .none
    · obtain ⟨hstop, hnext⟩ := run_unpaused hp.stop (hfirst.code ▸ hcode)
      have hread : (p.parse env first).parser.unpaused =
          ((reader env).run p.unpaused first).state := by rw [hfirst.parser, hnext]
      have hgood : (p.parse env first).parser.unpaused.Reading := by
        rw [hread]
        exact ((reader env).run_goes_on hp hstop).1
      have hrest := @ih _ second hgood (parse_reads second hgood.stop)
      rw [hread] at hrest
      rw [if_neg (not_not.mpr hcode), Outcome.andThen_of_none hstop]
      refine ⟨hrest.parser, ?_, hrest.code, ?_⟩
      · change (p.parse env first).n + _ = _
        rw [hfirst.n, hrest.n]
      · change ((p.parse env first).calls ++ _).map Call.entry = _
        rw [List.map_append, hfirst.calls, hrest.calls]
    · have hstop : ∃ c, ((reader env).run p.unpaused first).stop = some c := by
        rw [← Option.ne_none_iff_exists']
        intro hnone
        rw [hfirst.code, hnone] at hcode
        exact hcode rfl
      obtain ⟨c, hstop⟩ := hstop
      rw [if_pos hcode, Outcome.andThen_of_some hstop]
      exact hfirst

end Parser

/-- **Fragmentation makes no difference.** From any state that a parser can be in, giving it some
octets in pieces returns the same code, consumes the same number of them and leaves the same parser
as giving it all of them. The callbacks are the same up to the cutting of tokens if nothing goes
wrong, and up to the end of the last completed message in any case. -/
theorem parsePieces_eq_parse (env : Env) (kind : Kind) (limits : Limits) (is : List Input)
    (first : Bytes) (rest : List Bytes) :
    let p := (newParser kind limits).after env is
    let pieces := p.parsePieces env first rest
    let whole := p.parse env (first :: rest).flatten
    pieces.code = whole.code ∧ pieces.n = whole.n ∧ pieces.parser = whole.parser ∧
      (whole.code = .none ∨ whole.code = .upgrade → merged pieces.calls = merged whole.calls) ∧
      completed pieces.calls = completed whole.calls := by
  intro p
  have hoccurs : p.code = .none → p.Occurs := occurs_run env kind limits is
  have hbounded : p.Bounded :=
    (Parser.bounded_after (occurs_newParser kind limits) (bounded_newParser kind limits).1 is).1
  generalize p = p at hoccurs hbounded
  intro pieces whole
  by_cases hgo : p.code = .none ∧ p.state ≠ .upgrade
  · have hp : p.unpaused.Reading :=
      ⟨Parser.occurs_flags (p := p) (hoccurs hgo.1), Parser.stop_eq_none.mpr ⟨hgo.1, hgo.2, rfl⟩⟩
    have hpieces : Parser.Reads pieces _ := Parser.parsePieces_reads hp
    have hwhole : Parser.Reads whole _ := Parser.parse_reads (first :: rest).flatten hp.stop
    have hagree : Agree _ _ ((Parser.reader env).feed p.unpaused (first :: rest)) _ :=
      (Parser.reader env).feed_agree hp
    refine ⟨?_, ?_, ?_, fun hfine => ?_, ?_⟩
    · rw [hpieces.code, hwhole.code, hagree.stop]
    · rw [hpieces.n, hwhole.n, hagree.taken]
    · rw [hpieces.parser, hwhole.parser, hagree.state]
    · rw [merged, merged, hpieces.calls, hwhole.calls]
      refine hagree.merge fun c hc => ?_
      have hfailure : whole.parser.code ≠ .upgrade :=
        (Parser.bounded_runParse _ false hoccurs hbounded).1.failure
      exact hwhole.fine (Parser.loop_stop _ _ hp.stop) hfailure hfine c (hagree.stop ▸ hc)
    · rw [completed, completed, merged, merged, hpieces.calls, hwhole.calls]
      exact hagree.concur.of_all Call.completes
  · have hstopped : p.code ≠ .none ∨ p.state = .upgrade := by
      rw [not_and_or, not_not] at hgo
      exact hgo
    have heq : pieces = whole := by
      simp only [pieces, whole]
      rw [Parser.parsePieces_stopped hstopped, Parser.parse_stopped _ hstopped]
    rw [heq]
    exact ⟨rfl, rfl, rfl, fun _ => rfl, rfl⟩

end WagoHttp.Http1
