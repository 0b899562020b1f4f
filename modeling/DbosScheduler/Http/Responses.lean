import DbosScheduler.Http.Session

namespace DbosScheduler.Http

end DbosScheduler.Http
