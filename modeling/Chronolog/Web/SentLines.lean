import Chronolog.Web.SyslogDisplay
import Chronolog.Web.SyslogPatterns

/-!
# Lines of RFC 5424 on the display

The parser of the engine is one for RFC 3164.  Of a line of RFC 5424 it drops the
priority and takes the version for the host, so the browser, which could read the line
as it was sent, finds no priority: it displays the rest of the line as a plain message.
The host is shown all the same, since it is the second word behind the version.
-/

namespace Chronolog
namespace Web

open Ingestion Matcher Pipeline Server Storage Utf8

namespace Line5424

/-- The line behind its host. -/
def behindHost (line : Line5424) : Text :=
  line.app.text ++ (line.pid.text ++ (line.msgid.text ++ (line.data.text ++
    (line.blanks ++ line.message))))

/-- The bytes of a line up to its host. -/
def hostEnd (line : Line5424) : Nat :=
  line.pri.length + 4 + ((line.stamp.word ++ line.host.text).flatMap encode).length

/-- The line from its timestamp on, as far as it fits into the packet buffer. -/
def kept (line : Line5424) : Text :=
  line.stamp.word ++ (line.host.text ++
    Utf8.text ((line.behindHost.flatMap encode).take (bufferSize - line.hostEnd)))

variable {line : Line5424} {arrival : Arrival}

end Line5424

end Web
end Chronolog
