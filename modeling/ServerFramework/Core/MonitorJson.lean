import ServerFramework.Base.Config
import ServerFramework.Core.Monitor

namespace ServerFramework.Core.Monitor

/-- What each `oss <<` of `to_json` writes; `\x7b` and `\x7d` are the braces. -/
def jsonWrites (s : MonitorStats) : List String :=
  ["\x7b\n",
    "  \"timestamp\": " ++ toString s.timestamp ++ ",\n",
    "  \"connections\": \x7b\n",
    "    \"alive\": " ++ toString s.connectionsAlive ++ ",\n",
    "    \"total\": " ++ toString s.connectionsTotal ++ ",\n",
    "    \"peak\": " ++ toString s.connectionsPeak ++ "\n",
    "  \x7d,\n",
    "  \"task_queue_length\": " ++ toString s.taskQueueLength ++ ",\n",
    "  \"threadpool\": \x7b\n",
    "    \"active\": " ++ toString s.threadpoolActive ++ ",\n",
    "    \"total\": " ++ toString s.threadpoolTotal ++ "\n",
    "  \x7d,\n",
    "  \"messages\": \x7b\n",
    "    \"sent\": " ++ toString s.msgsSent ++ ",\n",
    "    \"recv\": " ++ toString s.msgsRecv ++ ",\n",
    "    \"error\": " ++ toString s.msgsError ++ "\n",
    "  \x7d,\n",
    "  \"bytes\": \x7b\n",
    "    \"sent\": " ++ toString s.bytesSent ++ ",\n",
    "    \"recv\": " ++ toString s.bytesRecv ++ "\n",
    "  \x7d,\n",
    "  \"memory\": \x7b\n",
    "    \"rss_kb\": " ++ toString s.memoryRssKb ++ ",\n",
    "    \"peak_rss_kb\": " ++ toString s.memoryPeakRssKb ++ "\n",
    "  \x7d\n",
    "\x7d"]

def toJson (m : Monitor) (tick : UInt64) : Base.Text := (jsonWrites (m.snapshot tick)).flatMap String.toList

end ServerFramework.Core.Monitor
