import LimitOrderBook.TcpDemo

namespace LimitOrderBook

/-!
# How the two ends of a connection agree

The client and the server of events over a connection agree with a replay of
the file at any time, whatever call fails, and if none fails they both come to
the end that the replay has.
-/

namespace TcpDemo

open EventCsv EventReplay Dialogue

variable {grants : Nat → RegistryGrants} {lines : List Line}
  {frame sent : EventFrame} {client : Client} {server : Server}
  {verdict : ClientEnd}

def ClientEnd.Early : ClientEnd → Prop
  | .finished => True
  | .rejected _ => True
  | .parseFailed _ _ => True
  | .transportFailed _ => True
  | _ => False

def ServerEnd.Early : ServerEnd → Prop
  | .invalidSequence _ => True
  | .transportFailed _ => True
  | _ => False

/-- What the client has ended for. -/
inductive ClientSays (grants : Nat → RegistryGrants) (lines : List Line)
    (faulty : Prop) (link : Link Client ClientEnd Server ServerEnd) :
    ClientEnd → Prop where
  | concludes {verdict : ClientEnd} :
      Concludes grants lines link.left.state link.right.state verdict →
      link.left.state.acks = link.right.state.answered →
      ClientSays grants lines faulty link verdict
  | serverClosed {heard : ServerEnd} :
      link.right.phase = .ended heard →
      heard.Early →
      ClientSays grants lines faulty link .serverClosed
  | disconnected {what : String} :
      faulty →
      link.right.phase = .ended (.transportFailed what) →
      ClientSays grants lines faulty link .disconnected
  | transportFailed {what : String} :
      faulty →
      ClientSays grants lines faulty link (.transportFailed what)

/-- What the server has ended for. -/
inductive ServerSays (grants : Nat → RegistryGrants) (lines : List Line)
    (faulty : Prop) (link : Link Client ClientEnd Server ServerEnd) :
    ServerEnd → Prop where
  | finished {said : ClientEnd} :
      link.left.phase = .ended said →
      said.Early →
      ServerSays grants lines faulty link .finished
  | invalidSequence {received : Sequence} :
      readLines grants {} lines =
        .error (.invalidSequence link.right.state.registry.getSeq received) →
      ServerSays grants lines faulty link (.invalidSequence received)
  | disconnected {what : String} :
      faulty →
      link.left.phase = .ended (.transportFailed what) →
      ServerSays grants lines faulty link .disconnected
  | transportFailed {what : String} :
      faulty →
      ServerSays grants lines faulty link (.transportFailed what)

/-- The two programs and a replay of the file of the client. -/
structure Agree (grants : Nat → RegistryGrants) (lines : List Line)
    (faulty : Prop) (link : Link Client ClientEnd Server ServerEnd) :
    Prop where
  inStep : InStep grants lines link.left.state link.right.state
  client : ∀ verdict, link.left.phase = .ended verdict →
    ClientSays grants lines faulty link verdict
  server : ∀ verdict, link.right.phase = .ended verdict →
    ServerSays grants lines faulty link verdict

variable {faulty : Prop} {link : Link Client ClientEnd Server ServerEnd}
  {count : Nat}

theorem Talks.synced
    {start : Client × Server × EventFrame}
    (talks : Talks Client.program (Server.program grants) start client server
      frame)
    (synced : Synced grants lines start.1 start.2.1 start.2.2) :
    Synced grants lines client server frame := by
  induction talks with
  | start => exact synced
  | exchange _ responded heard inductionHypothesis =>
      exact (inductionHypothesis.answered responded).2.1 _ _ heard

theorem Reached.inStep
    {start : Client × Server × EventFrame}
    (reached : Dialogue.Reached Client.program (Server.program grants) start
      client server)
    (synced : Synced grants lines start.1 start.2.1 start.2.2) :
    InStep grants lines client server := by
  cases reached with
  | asked talks => exact (Talks.synced talks synced).inStep
  | answered talks responded =>
      exact ((Talks.synced talks synced).answered responded).1

theorem client_goes
    (goes : Goes Client.program faulty link.left)
    (hasEnded : link.left.phase = .ended verdict) :
    faulty ∧ ∃ what, verdict = .transportFailed what := by
  rcases goes with running | ⟨mayFail, what, failed⟩
  · exact absurd ⟨verdict, hasEnded⟩ running
  · rw [hasEnded] at failed
    exact ⟨mayFail, what, Phase.ended.inj failed⟩

theorem server_goes {heard : ServerEnd}
    (goes : Goes (Server.program grants) faulty link.right)
    (hasEnded : link.right.phase = .ended heard) :
    faulty ∧ ∃ what, heard = .transportFailed what := by
  rcases goes with running | ⟨mayFail, what, failed⟩
  · exact absurd ⟨heard, hasEnded⟩ running
  · rw [hasEnded] at failed
    exact ⟨mayFail, what, Phase.ended.inj failed⟩

/-- The server sees that a client has ended. -/
theorem server_says_finished {heard : ServerEnd} {said : ClientEnd}
    (served : Served grants lines link.right.state)
    (hasEnded : link.left.phase = .ended said) (early : said.Early)
    (fate : Goes (Server.program grants) faulty link.right ∨
      Closed (Server.program grants) link.right)
    (isVerdict : link.right.phase = .ended heard) :
    ServerSays grants lines faulty link heard := by
  rcases fate with goes | closed
  · obtain ⟨mayFail, what, rfl⟩ := server_goes goes isVerdict
    exact .transportFailed mayFail
  · rw [Closed, served.validates, isVerdict] at closed
    rw [Phase.ended.inj closed]
    exact .finished hasEnded early

theorem Concludes.early
    (concludes : Concludes grants lines client server verdict) :
    verdict.Early := by
  cases concludes <;> trivial

theorem Stands.agree
    {start : Client × Server × EventFrame}
    (stands : Stands Client.program (Server.program grants) start faulty link)
    (synced : Synced grants lines start.1 start.2.1 start.2.2) :
    Agree grants lines faulty link := by
  cases stands with
  | between reached left right =>
      refine ⟨Reached.inStep reached synced, fun verdict hasEnded => ?_,
        fun heard hasEnded => ?_⟩
      · obtain ⟨mayFail, what, rfl⟩ := client_goes left hasEnded
        exact .transportFailed mayFail
      · obtain ⟨mayFail, what, rfl⟩ := server_goes right hasEnded
        exact .transportFailed mayFail
  | leftHungUp reached hungUp rightEnded right =>
      obtain ⟨heard, isHeard⟩ := rightEnded
      obtain ⟨mayFail, what, rfl⟩ := server_goes right isHeard
      refine ⟨Reached.inStep reached synced, fun verdict hasEnded => ?_,
        fun heard hasEnded => ?_⟩
      · rcases hungUp with closed | cut
        · rw [Closed, hasEnded] at closed
          rw [Phase.ended.inj closed]
          exact .serverClosed isHeard trivial
        · rw [hasEnded] at cut
          rw [Phase.ended.inj cut]
          exact .disconnected mayFail isHeard
      · rw [isHeard] at hasEnded
        rw [← Phase.ended.inj hasEnded]
        exact .transportFailed mayFail
  | rightHungUp reached leftEnded left hungUp =>
      have inStep := Reached.inStep reached synced
      obtain ⟨said, isSaid⟩ := leftEnded
      obtain ⟨mayFail, what, rfl⟩ := client_goes left isSaid
      refine ⟨inStep, fun verdict hasEnded => ?_, fun heard hasEnded => ?_⟩
      · rw [isSaid] at hasEnded
        rw [← Phase.ended.inj hasEnded]
        exact .transportFailed mayFail
      · rcases hungUp with closed | cut
        · exact server_says_finished inStep.served isSaid trivial
            (Or.inr closed) hasEnded
        · rw [hasEnded] at cut
          rw [Phase.ended.inj cut]
          exact .disconnected mayFail isSaid
  | rightEnded talks responded isHeard fate =>
      have synced := Talks.synced talks synced
      obtain ⟨same, received, rfl, stops⟩ := synced.invalid responded
      rw [← same] at synced stops
      refine ⟨synced.inStep, fun verdict hasEnded => ?_,
        fun heard hasEnded => ?_⟩
      · rcases fate with goes | closed
        · obtain ⟨mayFail, what, rfl⟩ := client_goes goes hasEnded
          exact .transportFailed mayFail
        · rw [Closed, hasEnded] at closed
          rw [Phase.ended.inj closed]
          exact .serverClosed isHeard trivial
      · rw [isHeard] at hasEnded
        rw [← Phase.ended.inj hasEnded]
        exact .invalidSequence stops
  | leftEnded talks responded heard isSaid fate =>
      have synced := Talks.synced talks synced
      obtain ⟨inStep, _, ends⟩ := synced.answered responded
      obtain ⟨acks, concludes⟩ := ends _ _ heard
      refine ⟨⟨inStep.served, ?_, ?_⟩, fun verdict hasEnded => ?_,
        fun heard hasEnded =>
          server_says_finished inStep.served isSaid concludes.early fate
            hasEnded⟩
      · rw [acks]
      · rw [acks]
        exact Nat.le_succ _
      · rw [isSaid] at hasEnded
        rw [← Phase.ended.inj hasEnded]
        exact .concludes concludes acks

/-- The client has found no event to send. -/
theorem silence_agrees
    {said : Client}
    (steps : Steps Client.program (Server.program grants) faulty count
      (silence ⟨said, .ended verdict⟩ {}) link)
    (asked : Client.ask {} lines = (said, .inr verdict)) :
    Agree grants lines faulty link := by
  have start : Books grants [] {} :=
    ⟨rfl, rfl, OrderBookRegistry.tracks_empty, rfl⟩
  have asks := @ask_asks grants ⟨{}, 0, 0⟩ {} lines rfl
  obtain ⟨acks, concludes⟩ := asks.concludes start asked
  obtain ⟨isLeft, _, right⟩ := steps.of_silence (by decide) ⟨verdict, rfl⟩
  have isRight : link.right.state = {} := by
    rcases right with ⟨isRight, _⟩ | ⟨_, isRight, _⟩ <;> rw [isRight]
  have served : Served grants lines {} := .accepted List.nil_prefix start
  have inStep : InStep grants lines link.left.state link.right.state := by
    rw [isLeft, isRight]
    refine ⟨served, ?_, Nat.zero_le _⟩
    rw [acks]
  refine ⟨inStep, fun other hasEnded => ?_, fun heard hasEnded => ?_⟩
  · rw [isLeft] at hasEnded
    rw [← Phase.ended.inj hasEnded]
    refine .concludes ?_ ?_
    · rw [isLeft, isRight]
      exact concludes
    · rw [isLeft, isRight]
      exact acks
  · rcases right with ⟨isRight, _⟩ | ⟨_, _, _, fate⟩
    · rw [isRight] at hasEnded
      cases hasEnded
    · exact server_says_finished inStep.served (congrArg Endpoint.phase isLeft)
        concludes.early fate hasEnded

/--
However the bytes come in and whatever call fails, the server has the books of
a replay of a part of the file at any time and has answered its events, and the
client has printed these answers but perhaps the last.  If the client ends by
itself, the replay ends in the same way, and if the server does, there is a gap
in the file.  No frame is malformed, no answer is mismatched, and the books
pass their checks.
-/
theorem tcp_agrees
    (steps : Steps Client.program (Server.program grants) faulty count
      (connected lines) link) :
    Agree grants lines faulty link := by
  unfold connected at steps
  cases asked : Client.ask {} lines with
  | mk client result =>
      rw [asked] at steps
      cases result with
      | inl frame =>
          have start : Books grants [] {} :=
            ⟨rfl, rfl, OrderBookRegistry.tracks_empty, rfl⟩
          have asks := @ask_asks grants ⟨{}, 0, 0⟩ {} lines rfl
          have synced : Synced grants lines client {} frame :=
            asks.synced start rfl rfl asked
          exact Stands.agree (steps.stands (by decide) (by decide)) synced
      | inr verdict => exact silence_agrees steps asked

/-- The server has answered the first of two events when a call fails. -/
theorem tcp_agrees_failed :
    ∃ lines link, Agree (fun _ => {}) lines True link ∧
      link.left.phase = .ended .serverClosed ∧
      link.right.phase = .ended (.transportFailed "recv") ∧
      link.left.state.acks = [⟨1, .ok⟩] := by
  let lines : List Line :=
    ["1,7,ADD,1,BID,100,5".toList, "2,7,CANCEL,1,,,".toList]
  have acked : ((Client.ask {} lines).2.getLeft?.bind fun frame =>
      exchange Client.program (Server.program fun _ => {})
        ((Client.ask {} lines).1, {}, frame)).map
          (fun turn => turn.1.acks) = some [⟨1, .ok⟩] := by
    decide +kernel
  obtain ⟨⟨client, server, sent⟩, exchanged, acks⟩ :=
    Option.map_eq_some_iff.mp acked
  obtain ⟨frame, asked, exchanged⟩ := Option.bind_eq_some_iff.mp exchanged
  have origin : connected lines =
      opening ((Client.ask {} lines).1, {}, frame) := by
    unfold connected
    rw [← Prod.mk.eta (p := Client.ask {} lines),
      Sum.getLeft?_eq_some_iff.mp asked]
  have failed : Ends (Server.program fun _ => {}) True
      (⟨client, .receiving []⟩ : Endpoint Client ClientEnd).Ended
      ⟨server, .receiving []⟩ sent.toList server (.transportFailed "recv") :=
    .receiveFailed trivial (by decide)
  have closed : Ends Client.program True
      (⟨server, .ended (.transportFailed "recv")⟩ :
        Endpoint Server ServerEnd).Ended
      ⟨client, .receiving []⟩ [] client .serverClosed :=
    .closed ⟨_, rfl⟩
  have steps : Steps Client.program (Server.program fun _ => {}) True 9
      (connected lines)
      ⟨⟨client, .ended .serverClosed⟩,
        ⟨server, .ended (.transportFailed "recv")⟩, sent.toList, []⟩ := by
    rw [origin]
    exact .tail (.tail (.tail
      (steps_exchange (by decide) (by decide) exchanged)
      (.left (.sends_frame (by decide)))) (.rightEnds failed)) (.leftEnds closed)
  exact ⟨lines, _, tcp_agrees steps, rfl, rfl, acks⟩

/-- What the two programs say of a file that a replay ends so for. -/
def verdicts : Except Stop EventReplay → ClientEnd × ServerEnd
  | .ok _ => (.finished, .finished)
  | .error (.parseError line error) => (.parseFailed line error, .finished)
  | .error (.invalidSequence _ received) =>
      (.serverClosed, .invalidSequence received)
  | .error .notImplemented => (.rejected .notImplemented, .finished)
  | .error (.applyError _ result) => (.rejected result, .finished)
  | .error .invariantFailure => (.finished, .invariantFailed)

theorem Client.ask_shrinks
    {said : Client} (asked : client.ask lines = (said, .inl sent)) :
    said.lines.length < lines.length := by
  induction lines generalizing client with
  | nil => cases asked
  | cons line rest inductionHypothesis =>
      unfold Client.ask at asked
      cases parsed : (parseEventLine line).event with
      | none =>
          rw [parsed] at asked
          dsimp only at asked
          split_ifs at asked
          · exact (inductionHypothesis asked).trans (Nat.lt_succ_self _)
          · cases asked
      | some event =>
          rw [parsed] at asked
          cases encoded : encodeEvent event with
          | error what =>
              simp only [encoded] at asked
              cases asked
          | ok frame =>
              simp only [encoded] at asked
              cases asked
              exact Nat.lt_succ_self _

theorem client_shrinks :
    Shrinks Client.program fun client => client.lines.length := by
  intro client answer next sent heard
  change client.respond answer = _ at heard
  unfold Client.respond at heard
  cases decoded : decodeApplyAck answer with
  | none =>
      rw [decoded] at heard
      cases heard
  | some response =>
      rw [decoded] at heard
      dsimp only at heard
      split_ifs at heard with mismatched notOk
      · cases heard
      · cases heard
      · exact Client.ask_shrinks heard

/-- The verdicts of programs that have both ended without a failure. -/
theorem Agree.verdicts
    (agree : Agree grants lines False link) {heard : ServerEnd}
    (isSaid : link.left.phase = .ended verdict)
    (isHeard : link.right.phase = .ended heard) :
    (verdict, heard) = TcpDemo.verdicts (readLines grants {} lines) := by
  have refusal (number : Nat) (result : ApplyResult) :
      TcpDemo.verdicts (.error (.refusal number result)) =
        (.rejected result, .finished) := by
    unfold Stop.refusal
    split_ifs with isResult
    · rw [isResult]
      rfl
    · rfl
  cases agree.server heard isHeard with
  | disconnected mayFail _ => exact absurd mayFail not_false
  | transportFailed mayFail => exact absurd mayFail not_false
  | invalidSequence stops =>
      rw [stops]
      cases agree.client verdict isSaid with
      | disconnected mayFail _ => exact absurd mayFail not_false
      | transportFailed mayFail => exact absurd mayFail not_false
      | serverClosed _ _ => rfl
      | concludes concludes _ =>
          cases concludes with
          | finished reads =>
              rw [stops] at reads
              cases reads
          | @rejected result reads =>
              rw [stops] at reads
              have same := congrArg TcpDemo.verdicts reads
              rw [refusal] at same
              cases same
          | parseFailed reads =>
              rw [stops] at reads
              cases reads
  | finished isEarly early =>
      rw [isSaid] at isEarly
      obtain rfl := Phase.ended.inj isEarly
      cases agree.client verdict isSaid with
      | disconnected mayFail _ => exact absurd mayFail not_false
      | transportFailed mayFail => exact absurd mayFail not_false
      | serverClosed _ _ => exact absurd early not_false
      | concludes concludes _ =>
          cases concludes with
          | finished reads =>
              rw [reads]
              rfl
          | rejected reads => rw [reads, refusal]
          | parseFailed reads =>
              rw [reads]
              rfl

/--
If no call fails, the two programs are done after a number of calls that the
length of the file bounds, never wait for each other before, and end as a
replay of the file does.
-/
theorem tcp_completes
    (steps : Steps Client.program (Server.program grants) False count
      (connected lines) link) :
    count ≤ 114 * lines.length + 2 ∧
      ((∃ next, Step Client.program (Server.program grants) False link next) ∨
        ∃ said heard, link.left.phase = .ended said ∧
          link.right.phase = .ended heard ∧
          (said, heard) = verdicts (readLines grants {} lines)) := by
  have ends (agree : Agree grants lines False link)
      (goesOn : ¬ (link.left.Ended ∧ link.right.Ended) →
        ∃ next, Step Client.program (Server.program grants) False link next) :
      (∃ next, Step Client.program (Server.program grants) False link next) ∨
        ∃ said heard, link.left.phase = .ended said ∧
          link.right.phase = .ended heard ∧
          (said, heard) = verdicts (readLines grants {} lines) := by
    by_cases bothEnded : link.left.Ended ∧ link.right.Ended
    · obtain ⟨⟨said, isSaid⟩, heard, isHeard⟩ := bothEnded
      exact Or.inr ⟨said, heard, isSaid, isHeard,
        agree.verdicts isSaid isHeard⟩
    · exact Or.inl (goesOn bothEnded)
  unfold connected at steps
  cases asked : Client.ask {} lines with
  | mk client result =>
      rw [asked] at steps
      cases result with
      | inl frame =>
          have start : Books grants [] {} :=
            ⟨rfl, rfl, OrderBookRegistry.tracks_empty, rfl⟩
          have asks := @ask_asks grants ⟨{}, 0, 0⟩ {} lines rfl
          have synced : Synced grants lines client {} frame :=
            asks.synced start rfl rfl asked
          have agree := Stands.agree
            (steps.stands (by decide) (by decide)) synced
          refine ⟨?_, ends agree (steps.goes_on (by decide) (by decide))⟩
          have bounded := steps.bounded (by decide) (by decide) client_shrinks
          have fewer := Client.ask_shrinks asked
          dsimp only [work] at bounded
          lia
      | inr verdict =>
          have agree := silence_agrees steps asked
          have hasEnded : (⟨client, .ended verdict⟩ :
              Endpoint Client ClientEnd).Ended := ⟨verdict, rfl⟩
          obtain ⟨isLeft, _, right⟩ := steps.of_silence (by decide) hasEnded
          refine ⟨?_, ends agree fun notBoth =>
            steps.silence_goes_on (by decide) hasEnded
              fun rightEnded => notBoth ⟨isLeft ▸ hasEnded, rightEnded⟩⟩
          rcases right with ⟨_, rfl⟩ | ⟨_, _, rfl, _⟩ <;> lia

/-- There is no book for the order that is cancelled. -/
theorem tcp_completes_rejected :
    ∃ link : Link Client ClientEnd Server ServerEnd,
      link.left.phase = .ended (.rejected .unknownInstrument) ∧
      link.right.phase = .ended .finished := by
  let lines : List Line := ["1,7,CANCEL,1,,,".toList]
  obtain ⟨count, link, steps, leftEnded, rightEnded⟩ :=
    @exists_ended _ _ _ _ _ _ Client.program (Server.program fun _ => {})
      False (connected lines) (114 * lines.length + 2)
      (fun _ _ steps => (tcp_completes steps).1)
      (fun _ _ steps notBoth =>
        (tcp_completes steps).2.resolve_right
          fun ⟨_, _, isSaid, isHeard, _⟩ =>
            notBoth ⟨⟨_, isSaid⟩, ⟨_, isHeard⟩⟩)
  obtain ⟨_, both⟩ := tcp_completes steps
  rcases both with ⟨next, step⟩ | ⟨said, heard, isSaid, isHeard, isEnd⟩
  · cases step with
    | left moves => exact absurd leftEnded moves.not_ended.1
    | leftEnds ends => exact absurd leftEnded ends.not_ended.1
    | right moves => exact absurd rightEnded moves.not_ended.1
    | rightEnds ends => exact absurd rightEnded ends.not_ended.1
  · have replayed : verdicts (readLines (fun _ => {}) {} lines) =
        (.rejected .unknownInstrument, .finished) := by decide +kernel
    rw [replayed] at isEnd
    cases isEnd
    exact ⟨link, isSaid, isHeard⟩

end TcpDemo

end LimitOrderBook
